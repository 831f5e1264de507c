import Downmark.Proofs.LinkTargets
import Downmark.Proofs.Signs
import Downmark.Proofs.TableRules
/-!
Reading inline content off the tree. Main statement: with struck text converted, too, what the rule of an element within
a line writes has one of the rows of signs that the tree gives for it, given the row of its content.
-/

set_option autoImplicit false

namespace Downmark

open Node Whitespace

def struckTags : List String := ["del", "s", "strike"]

-- In place, a target is written as it is.
def targetSigns (o : Options) (url : Chars) : List Sign :=
  if o.linkStyle = .inlined ∧ Broken url then [.parted] else []

def enclosed (inside : List Sign) : List Sign := .ink :: (inside ++ [.ink])

/-- The rows of a block. Nothing is told of what is in it but that blank lines stand around it; an item need not have
any, and may end in a newline. -/
def blockSigns (n : Marked) : List (List Sign) :=
  (if n.isNamed "li" then [[.ink], [.ink, .lineBreak], [.faint], [.faint, .lineBreak]] else []) ++
    [[.parted, .ink], [.parted]]

/-- The row of an element within a line, given the row of its content. -/
def inlineSigns (o : Options) (n : Marked) (inside : List Sign) : List Sign :=
  if n.isNamed "br" then lineSigns o.lineBreak.text ++ [.lineBreak]
  else if n.isNamed "code" then if inside = [] then [] else [.ink]
  else if n.isNamed "img" then if (n.attr "src").isEmpty then [] else .ink :: targetSigns o (n.attr "src")
  else if n.isNamed "a" && !(n.attr "href").isEmpty then enclosed inside ++ targetSigns o (n.attr "href")
  else if emphasizedTags.contains n.tag then if .ink ∈ inside then enclosed inside else []
  else if struckTags.contains n.tag then if .ink ∈ inside then enclosed inside else inside
  else inside

mutual

/-- The rows of signs that a node may have. -/
def readings (o : Options) : Marked → List (List Sign)
  | .text _ data => [lineSigns (Glyph.ink data)]
  | .comment _ _ => [[]]
  | .document _ _ => [[]]
  | .element m t a ks =>
    if m.blank then if isBlockTag t then [[.parted]] else [[]]
    else if removedTags.contains t then [[]]
    else if isBlockTag t then blockSigns (.element m t a ks)
    else (rowReadings o ks).map (inlineSigns o (.element m t a ks))

def rowReadings (o : Options) : List Marked → List (List Sign)
  | [] => [[]]
  | n :: rest => (readings o n).flatMap fun signs => (rowReadings o rest).map (signs ++ ·)

end

/-! Texts -/

namespace Escape

theorem spelled_seen (special : Chars) (common : ∀ c ∈ special, Text.isBlank c = false) (start : Bool) (s w : Chars)
    (spelled : Spelled special start s w) : Seen w ↔ Seen s := by
  refine ⟨fun seen => ?_, seen_part s w fun c member _ => spelled_kept special start s w spelled c member⟩
  induction spelled with
  | nil => exact seen
  | plain start c s w _ _ _ ih =>
      obtain ⟨d, member, solid⟩ := seen
      rcases List.mem_cons.mp member with rfl | later
      · exact ⟨d, List.mem_cons_self, solid⟩
      · exact seen_part s _ (fun e inside _ => List.mem_cons_of_mem c inside) (ih ⟨d, later, solid⟩)
  | slashed start c s w reason _ _ =>
      refine ⟨c, List.mem_cons_self, ?_⟩
      by_contra white
      obtain ⟨-, -, closed, other⟩ := blank_plain c w (by simpa using white)
      rcases reason with listed | opens | ⟨-, listed⟩
      · exact white (common c listed)
      · rw [closed] at opens
        cases opens
      · exact other listed

end Escape

namespace Render

theorem text_signed (o : Options) (flowing : o.preformattedCode = false) (s : State) (opened : List Open) (m : Mark)
    (data : Chars) (regapped : Regapped (shown m data) data) :
    Signed (lineSigns (Glyph.ink data)) (textOutput s o opened m data) ∧ '\n' ∉ textOutput s o opened m data := by
  have read : s.textOf o m data = shown m data := text_noted o s flowing m data
  have free := spaced_newline _ regapped.spaced
  have same_signs : lineSigns (shown m data) = lineSigns (Glyph.ink data) := by
    have same := regapped_gapless _ _ regapped
    have inked : gapless (Glyph.ink data) = Glyph.ink data := by
      refine List.filter_eq_self.mpr fun c member => ?_
      rw [← same] at member
      exact (List.mem_filter.mp member).2
    refine line_signs_same _ _ ?_ (by rw [Gaps, Gaps, same, inked])
    rw [seen_gapless, same]
  have escaped (special w : Chars) (common : ∀ c ∈ special, Text.isBlank c = false)
      (spelled : Escape.Spelled special true (shown m data) w) :
      Signed (lineSigns (Glyph.ink data)) w ∧ '\n' ∉ w := by
    have line := Escape.spelled_free special true _ w spelled free
    have gaps : Gaps w ↔ Gaps (shown m data) := by
      refine ⟨fun gaps => (gaps_iff _).mpr fun c member => ?_, spelled_gaps special ?_ true _ w spelled⟩
      · exact (gaps_iff w).mp gaps c (spelled_kept special true _ w spelled c member)
      · exact fun c listed => solid_not_gap c (common c listed)
    rw [← same_signs, ← line_signs_same w _ (Escape.spelled_seen special common true _ w spelled) gaps]
    exact ⟨signed_line w line, line⟩
  have solid (special : Chars) (all : (special.all fun c => !Text.isBlank c) = true) :
      ∀ c ∈ special, Text.isBlank c = false := fun c listed => by
    simpa using List.all_eq_true.mp all c listed
  rw [textOutput, read]
  dsimp only
  split
  · rw [← same_signs]
    exact ⟨signed_line _ free, free⟩
  · split
    · exact escaped _ _ (solid _ rfl) (Escape.preformatted_spelled _ _)
    · exact escaped _ _ (solid _ rfl) (Escape.markdown_spelled _ _)

end Render

/-! Markers and targets -/

theorem enclosed_signed (inside : List Sign) (opening content closing : Chars) (first : Signed [.ink] opening)
    (signed : Signed inside content) (last : Signed [.ink] closing) :
    Signed (enclosed inside) (opening ++ content ++ closing) := by
  rw [List.append_assoc]
  exact signed_append [.ink] _ _ _ first (signed_append _ _ _ _ signed last)

theorem marker_signed (w : Chars) (solid : Leads w ∧ Trails w) (free : '\n' ∉ w) : Signed [.ink] w :=
  signed_ink w (whole_free w free) solid.1 solid.2

theorem blank_unseen (w : Chars) (inside : List Sign) (signed : Signed inside w) :
    Text.isBlankText w = true ↔ .ink ∉ inside := by
  rw [← signed.seen, seen_iff, Bool.not_eq_false]

namespace Link

theorem title_whole {μ : Type} (n : Node μ) : ¬ Broken (Reference.titleSuffix (title? n)) := by
  have cleaned : ∀ title ∈ title? n, ¬ Broken title := by
    intro title member
    have source := clean_whole (n.attr "title")
    rw [title?] at member
    split at member
    · cases member
    · cases member
      exact source
  cases given : title? n with
  | none => decide
  | some title =>
      cases title with
      | nil => decide
      | cons c text =>
          have kept : ¬ Broken (Text.replaceChar '"' ['\\', '"'] (c :: text)) := by
            rw [Text.replaceChar, broken_slashed]
            · exact cleaned _ given
            · intro d
              split
              · rename_i same
                obtain rfl : d = '"' := by simpa using same
                exact .inr ⟨rfl, rfl⟩
              · exact .inl rfl
          rw [whole_iff] at kept ⊢
          have quoted : gapless (Reference.titleSuffix (some (c :: text))) =
              ['"'] ++ (gapless (Text.replaceChar '"' ['\\', '"'] (c :: text)) ++ ['"']) := by
            rw [Reference.titleSuffix, List.cons_append, List.cons_append, gapless_cons, gapless_cons, gapless_append]
            · rfl
            · exact nofun
          rw [quoted, single_around]
          · exact kept
          · exact List.isChain_singleton _
          · exact List.isChain_singleton _
          · decide
          · decide

theorem image_text_whole {μ : Type} (n : Node μ) : ¬ Broken (imageText n) := by
  rw [imageText, broken_backslash _ _ rfl]
  exact clean_whole _

theorem destination_broken (url : Chars) : Broken (destination url) ↔ Broken url := by
  have escaped : Broken (Text.backslash ['(', ')'] url) ↔ Broken url := broken_backslash _ _ rfl
  unfold destination
  dsimp only
  split
  · rw [← escaped, ← not_iff_not, whole_iff, whole_iff]
    have angled : gapless ('<' :: Text.backslash ['(', ')'] url ++ ['>']) =
        ['<'] ++ (gapless (Text.backslash ['(', ')'] url) ++ ['>']) := by
      rw [List.cons_append, gapless_cons, gapless_append]
      rfl
    rw [angled]
    exact single_around _ _ _ _ (List.isChain_singleton _) (List.isChain_singleton _) (by decide) (by decide)
  · exact escaped

theorem title_start (title : Option Chars) : (gapless (Reference.titleSuffix title)).head? ≠ some '\n' := by
  unfold Reference.titleSuffix
  split
  · simp [gapless]
  · simp [gapless]
  · simp [gapless, Text.isGap]

theorem target_broken {μ : Type} (n : Node μ) (url : Chars) : Broken (target url (title? n)) ↔ Broken url := by
  have title := (whole_iff _).mp (title_whole n)
  have start := title_start (title? n)
  rw [← destination_broken url, ← not_iff_not, whole_iff, whole_iff]
  have parts : gapless (target url (title? n)) =
      ['('] ++ (gapless (destination url) ++ (gapless (Reference.titleSuffix (title? n)) ++ [')'])) := by
    rw [target, List.cons_append, List.cons_append, List.append_assoc, gapless_cons, gapless_append, gapless_append]
    rfl
  rw [parts]
  generalize gapless (Reference.titleSuffix (title? n)) = suffix at title start
  refine single_around _ _ _ _ (List.isChain_singleton _) ?_ (by decide) ?_
  · exact (single_append _ _ _).mpr ⟨title, List.isChain_singleton _, by simp⟩
  · cases suffix with
    | nil => decide
    | cons c rest => exact start

end Link

-- What stands before a bracket has no part in it whether there is a blank line behind.
theorem bracket_signed (o : Options) (url front tail : Chars) (leads : Leads (front ++ ']' :: tail))
    (trails : Trails (front ++ ']' :: tail)) (plain : ¬ Broken front)
    (broken : Broken tail ↔ o.linkStyle = .inlined ∧ Broken url) :
    Signed (.ink :: targetSigns o url) (front ++ ']' :: tail) := by
  have same : Broken (front ++ ']' :: tail) ↔ Broken tail := by
    rw [whole_iff] at plain
    have first : gapless (']' :: tail) = ']' :: gapless tail := rfl
    rw [← not_iff_not, whole_iff, whole_iff, gapless_append, first, single_append, single_cons]
    simp [plain]
  by_cases parted : o.linkStyle = .inlined ∧ Broken url
  · rw [targetSigns, if_pos parted]
    exact signed_severed _ _ (iff_of_true (leads_seen _ leads) List.mem_cons_self) (by decide)
      (same.mpr (broken.mpr parted))
  · rw [targetSigns, if_neg parted]
    exact signed_ink _ (fun split => parted (broken.mp (same.mp split))) leads trails

theorem link_suffix_signed (o : Options) (url tail : Chars) (trails : Trails (']' :: tail))
    (broken : Broken tail ↔ o.linkStyle = .inlined ∧ Broken url) :
    Signed (.ink :: targetSigns o url) (']' :: tail) :=
  bracket_signed o url [] tail (solid_leads ']' _ rfl) trails (by decide) broken

theorem target_inlined {μ : Type} (o : Options) (inlined : o.linkStyle = .inlined) (n : Node μ) (url : Chars) :
    Broken (Link.target url (Link.title? n)) ↔ o.linkStyle = .inlined ∧ Broken url := by
  rw [Link.target_broken, and_iff_right inlined]

theorem suffix_referenced (o : Options) (referenced : o.linkStyle = .referenced) (url suffix : Chars)
    (whole : ¬ Broken suffix) : Broken suffix ↔ o.linkStyle = .inlined ∧ Broken url :=
  iff_of_false whole fun inlined => nomatch referenced.symm.trans inlined.1

/-! The rules -/

/-- What a rule writes has the row that is expected, and begins with a newline only if it is the content itself. -/
def ReadAs (o : Options) (n : Marked) (inside : List Sign) (content inner : Chars) : Prop :=
  Signed (inlineSigns o n inside) inner ∧
    (inner.head? = some '\n' → inner = content ∧ inlineSigns o n inside = inside)

theorem flat_free (s : Chars) : '\n' ∉ Code.flattenLines s := by
  induction s using Code.flattenLines.induct with
  | case1 s ih =>
      rw [Code.flattenLines]
      simpa using ih
  | case2 c s other ih =>
      rw [Code.flattenLines]
      · split
        · simpa using ih
        · rename_i kept
          have newline : c ≠ '\n' := fun same => kept (by simp [same])
          simpa [eq_comm, newline] using ih
      · exact other
  | case3 => exact List.not_mem_nil

theorem span_free (s : Chars) : '\n' ∉ Code.span s := by
  have flat := flat_free s
  unfold Code.span
  split
  · exact List.not_mem_nil
  · dsimp only
    split <;> simp [flat, List.mem_replicate]

section

variable (o : Options) (m : Mark) (t : String) (a : Attrs) (ks : List Marked)
variable (inside : List Sign) (content : Chars)

theorem break_read (named : t = "br") :
    ReadAs o (.element m t a ks) inside content (o.lineBreak.text ++ ['\n']) := by
  subst named
  have row : inlineSigns o (.element m "br" a ks) inside = lineSigns o.lineBreak.text ++ [.lineBreak] := by
    simp [inlineSigns, isNamed]
  have line : Signed [.lineBreak] ['\n'] :=
    ⟨iff_of_false (by simp [Seen, Text.isBlank]) (by decide), by decide, fun _ => rfl, fun _ => rfl⟩
  have free : '\n' ∉ o.lineBreak.text := by cases o.lineBreak <;> decide
  rw [ReadAs, row]
  refine ⟨signed_append _ _ _ _ (signed_line _ free) line, fun start => ?_⟩
  cases style : o.lineBreak <;> simp [style, LineBreak.text] at start

-- With no gap at its start, content without a row is no content at all.
theorem code_read (named : t = "code") (signed : Signed inside content)
    (stop : content.head?.any Text.isGap = false) :
    ReadAs o (.element m t a ks) inside content (Code.span content) := by
  subst named
  have row : inlineSigns o (.element m "code" a ks) inside = if inside = [] then [] else [.ink] := by
    simp [inlineSigns, isNamed]
  have empty : inside = [] ↔ content = [] := by
    have first := signed.first
    rw [gapless_head content stop] at first
    constructor
    · rintro rfl
      simpa using first (by decide)
    · rintro rfl
      have whole : ¬ Severed inside := fun severed => absurd (signed.broken.mpr severed) (by decide)
      simpa [eq_comm] using first whole
  rw [ReadAs, row]
  by_cases none : content = []
  · rw [if_pos (empty.mpr none), none]
    exact ⟨signed_nil, fun start => absurd (List.mem_of_head? start) (span_free [])⟩
  · rw [if_neg fun same => none (empty.mp same)]
    have free := span_free content
    exact ⟨marker_signed _ (Render.span_solid content none) free,
      fun start => absurd (List.mem_of_head? start) free⟩

theorem image_read (named : t = "img") (tail : Chars)
    (given : (Node.attr "src" (.element m t a ks : Marked)).isEmpty = false)
    (trails : Trails ('!' :: '[' :: Link.imageText (.element m t a ks : Marked) ++ ']' :: tail))
    (broken : Broken tail ↔ o.linkStyle = .inlined ∧ Broken (Node.attr "src" (.element m t a ks : Marked))) :
    ReadAs o (.element m t a ks) inside content
      ('!' :: '[' :: Link.imageText (.element m t a ks : Marked) ++ ']' :: tail) := by
  subst named
  have row : inlineSigns o (.element m "img" a ks) inside =
      .ink :: targetSigns o (Node.attr "src" (.element m "img" a ks : Marked)) := by
    simp [inlineSigns, isNamed, given]
  have plain : ¬ Broken ('!' :: '[' :: Link.imageText (.element m "img" a ks : Marked)) := by
    have text := Link.image_text_whole (.element m "img" a ks : Marked)
    rw [whole_iff] at text ⊢
    have parts (s : Chars) : gapless ('!' :: '[' :: s) = '!' :: '[' :: gapless s := rfl
    rw [parts, single_cons, single_cons]
    simp [text]
  rw [ReadAs, row]
  exact ⟨bracket_signed o _ _ tail (solid_leads '!' _ rfl) trails plain broken, by simp⟩

theorem link_read (named : t = "a")
    (given : (Node.attr "href" (.element m t a ks : Marked)).isEmpty = false) (signed : Signed inside content)
    (tail : Chars) (trails : Trails (']' :: tail))
    (broken : Broken tail ↔ o.linkStyle = .inlined ∧ Broken (Node.attr "href" (.element m t a ks : Marked))) :
    ReadAs o (.element m t a ks) inside content ('[' :: content ++ ']' :: tail) := by
  subst named
  have row : inlineSigns o (.element m "a" a ks) inside =
      [.ink] ++ inside ++ .ink :: targetSigns o (Node.attr "href" (.element m "a" a ks : Marked)) := by
    simp [inlineSigns, isNamed, given, enclosed]
  have opening : Signed [.ink] ['['] := marker_signed _ ⟨rfl, rfl⟩ (by decide)
  rw [ReadAs, row]
  exact ⟨signed_append _ _ _ _ (signed_append _ _ _ _ opening signed) (link_suffix_signed o _ tail trails broken),
    by simp⟩

theorem emphasis_read (listed : t ∈ emphasizedTags) (signed : Signed inside content)
    (text preferred alternate : Chars) (first : (Leads preferred ∧ Trails preferred) ∧ '\n' ∉ preferred)
    (other : (Leads alternate ∧ Trails alternate) ∧ '\n' ∉ alternate) :
    ReadAs o (.element m t a ks) inside content (Inline.delimited text content preferred alternate) := by
  have row : inlineSigns o (.element m t a ks) inside = if .ink ∈ inside then enclosed inside else [] := by
    simp only [emphasizedTags, List.mem_cons, List.not_mem_nil, or_false] at listed
    rcases listed with rfl | rfl | rfl | rfl <;>
      simp [inlineSigns, Node.tag, isNamed, emphasizedTags]
  have unseen := blank_unseen content inside signed
  have solid_ := Render.chosen_solid text content preferred alternate first.1 other.1
  have free : '\n' ∉ Inline.chooseDelimiter text content preferred alternate := by
    unfold Inline.chooseDelimiter
    split_ifs
    · exact first.2
    · exact other.2
    · exact first.2
  unfold Inline.delimited
  by_cases ink : .ink ∈ inside
  · have marker := marker_signed _ solid_ free
    rw [ReadAs, row, if_pos ink, if_neg fun blank => unseen.mp blank ink]
    refine ⟨enclosed_signed _ _ _ _ marker signed marker, fun start => ?_⟩
    dsimp only at start
    obtain ⟨c, rest, shape⟩ : ∃ c rest, Inline.chooseDelimiter text content preferred alternate = c :: rest := by
      refine List.exists_cons_of_ne_nil fun none => ?_
      rw [none] at solid_
      cases solid_.1
    rw [shape] at start free
    simp only [List.cons_append, List.head?_cons, Option.some.injEq] at start
    simp [start] at free
  · rw [ReadAs, row, if_neg ink, if_pos (unseen.mpr ink)]
    exact ⟨signed_nil, by simp⟩

theorem struck_read (listed : t ∈ struckTags) (signed : Signed inside content) :
    ReadAs o (.element m t a ks) inside content
      (if Text.isBlankText content then content else '~' :: '~' :: content ++ ['~', '~']) := by
  have row : inlineSigns o (.element m t a ks) inside = if .ink ∈ inside then enclosed inside else inside := by
    simp only [struckTags, List.mem_cons, List.not_mem_nil, or_false] at listed
    rcases listed with rfl | rfl | rfl <;>
      simp [inlineSigns, Node.tag, isNamed, emphasizedTags, struckTags]
  have unseen := blank_unseen content inside signed
  by_cases ink : .ink ∈ inside
  · have marker : Signed [.ink] ['~', '~'] := marker_signed _ ⟨rfl, rfl⟩ (by decide)
    rw [ReadAs, row, if_pos ink, if_neg fun blank => unseen.mp blank ink]
    exact ⟨enclosed_signed _ ['~', '~'] _ _ marker signed marker, by simp⟩
  · rw [ReadAs, row, if_neg ink, if_pos (unseen.mpr ink)]
    exact ⟨signed, fun _ => ⟨rfl, rfl⟩⟩

end

end Downmark
