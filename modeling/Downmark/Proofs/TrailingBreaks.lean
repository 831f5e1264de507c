import Downmark.Proofs.LaidLines
/-!
Breaks of lines in paragraphs and headings, marked by a backslash. A paragraph keeps its lines, a heading folds them.
Main statement: what a document of them is converted to has a stray backslash exactly if no text comes after some break
of a paragraph, or a heading has a break.
-/

set_option autoImplicit false

namespace Downmark

open Text Escape Node

/-- The elements whose content is lines. -/
def lineTags : List String := "p" :: CommonMark.headingTags

theorem lined_other (t : String) (listed : t ∈ lineTags) : t ≠ "code" ∧ t ≠ "br" ∧ t ≠ "pre" ∧ t ≠ "body" := by
  have all : ∀ name ∈ lineTags, name ≠ "code" ∧ name ≠ "br" ∧ name ≠ "pre" ∧ name ≠ "body" := by decide
  exact all t listed

theorem lined_element {μ : Type} (n : Node μ) (listed : n.tag ∈ lineTags) :
    ∃ m t a ks, n = .element m t a ks ∧ t ∈ lineTags := by
  cases n with
  | text | comment | document => exact absurd (show "" ∈ lineTags from listed) (by decide)
  | element m t a ks => exact ⟨m, t, a, ks, rfl, listed⟩

namespace Node

variable {μ ν : Type}

/-- Whether a break of a block has no line to go on with. -/
def EndsOpen (n : Node μ) : Prop :=
  (n.tag = "p" ∧ BreaksOff n.leaves) ∨ (n.tag ∈ CommonMark.headingTags ∧ .lineBreak ∈ n.leaves)

theorem ends_open_marks (f : μ → ν) (n : Node μ) : (n.mapMarks f).EndsOpen ↔ n.EndsOpen := by
  rw [EndsOpen, EndsOpen, map_marks_tag, leaves_marks]

end Node

namespace Render

/-- Paragraphs and headings, as they are prepared. -/
structure BlockOfLines (n : Marked) : Prop where
  listed : n.tag ∈ lineTags
  flat : FlatAll n.kids
  noted : Noted [n]
  flagged : Flagged n

theorem block_stray (output text : Chars) (blank : Bool) :
    Stray (join output (if blank then ['\n', '\n'] else Block.apart text)) ↔
      Stray output ∨ blank = false ∧ Stray text := by
  cases blank with
  | true =>
      have none : ¬ Stray ['\n', '\n'] := bare_free _ _ (by decide)
      rw [if_pos rfl, stray_join output _ ⟨[], rfl⟩, or_iff_left none]
      simp
  | false =>
      rw [if_neg Bool.false_ne_true, stray_join output _ (apart_starts text), stray_apart]
      simp

theorem blank_break (m : Mark) (t : String) (a : Attrs) (ks : List Marked) (flagged : Flagged (.element m t a ks)) :
    .lineBreak ∈ leavesOf ks → m.blank = false := by
  intro member
  cases blank : m.blank with
  | false => rfl
  | true => exact absurd member (blank_no_break _ (hollow_leaves_of ks (flagged_hollow m t a ks flagged blank)))

theorem lines_block_written (o : Options) (marker : o.lineBreak = .backslash) (s : State) (uncoded : s.inCode = false)
    (flowing : s.inPreformatted = false) (path : List Step) (prose : ∀ step ∈ path, step.head.tag ≠ "code")
    (output : Chars) (n : Marked) (block : BlockOfLines n) :
    ∃ out, node {} o [] true path output n s = .ok out s ∧ (Stray out ↔ Stray output ∨ n.EndsOpen) := by
  obtain ⟨listed, flat, noted, flagged⟩ := block
  obtain ⟨m, t, a, ks, rfl, named⟩ := lined_element n listed
  obtain ⟨uncoded', unbroken, -, -⟩ := lined_other t named
  rw [noted_element] at noted
  obtain ⟨content, rendered, lays⟩ := nodes_lays o marker s uncoded flowing [⟨output, true⟩] true (.element m t a)
    uncoded' path prose [] [] [] lays_nil ks flat noted flagged.2
  rw [List.nil_append] at lays
  obtain ⟨last, ends, walked, hangs⟩ := lays.walks .within (by decide)
  rw [or_iff_left fun both => absurd both.1 (by decide)] at hangs
  obtain ⟨stray, loose⟩ := Spot.walk_stray .within last content (by decide) walked ends
  rw [hangs, lays.broken, and_iff_right_of_imp (breaks_off_listed _)] at stray
  rw [lays.broken] at loose
  have solid := blank_break m t a ks flagged
  have inner : (Node.element m t a ks).leaves = leavesOf ks := by rw [leaves, if_neg unbroken]
  rcases List.mem_cons.mp named with rfl | heading
  · refine ⟨_, paragraph_joined o s [] true output m a ks path content rendered, ?_⟩
    have other : "p" ∉ CommonMark.headingTags := by decide
    rw [block_stray, stray, and_iff_right_of_imp fun off => solid (breaks_off_listed _ off), EndsOpen, inner]
    simp [tag, other]
  · refine ⟨_, Heading.heading_joined o t a heading m ks path output content rendered, ?_⟩
    have other : t ≠ "p" := by
      rintro rfl
      exact absurd heading (by decide)
    rw [block_stray, stray_heading, loose, and_iff_right_of_imp solid, EndsOpen, inner]
    simp [tag, other, heading]

theorem blocks_written (o : Options) (marker : o.lineBreak = .backslash) (s : State) (uncoded : s.inCode = false)
    (flowing : s.inPreformatted = false) (head : Head) (named : head.tag ≠ "code") (path : List Step)
    (prose : ∀ step ∈ path, step.head.tag ≠ "code") (before : List Marked) (output : Chars) (ks : List Marked)
    (blocks : ∀ n ∈ ks, BlockOfLines n) :
    ∃ out, nodes {} o [] true head path before output ks s = .ok out s ∧
      (Stray out ↔ Stray output ∨ ∃ n ∈ ks, n.EndsOpen) := by
  induction ks generalizing before output with
  | nil => exact ⟨output, rfl, by simp⟩
  | cons n rest ih =>
      rw [List.forall_mem_cons] at blocks
      obtain ⟨out, written, here⟩ := lines_block_written o marker s uncoded flowing
        (Site.pathTo head path before rest n) (path_prose head path before rest n named prose) output n blocks.1
      obtain ⟨final, finished, later⟩ := ih (n :: before) out blocks.2
      refine ⟨final, ?_, ?_⟩
      · rw [nodes, bind_of_ok _ _ _ _ _ written, finished]
      · simp [later, here, or_assoc]

end Render

/-- What stands in a line: text, breaks of it, and inline elements that the default rule leaves as they are. -/
def Inlaid (o : Options) (site : Site) : Prop :=
  match site.node with
  | .text _ _ => True
  | .comment _ _ => True
  | .document _ _ => False
  | .element _ t _ _ => t = "br" ∨ (isBlockTag t = false ∧ ({} : RuleTable).find site o false = .ok Rule.default)

/-- Paragraphs and headings, with nothing but lines in them. Only the blocks themselves have no element around them. -/
structure Prose (o : Options) (ks : List Tree) : Prop where
  blocks : ∀ n ∈ ks, n.tag ∈ lineTags
  lines : ∀ site ∈ (Site.ofTree (.document () ks)).all.tail, site.parentTag? = none ∨ Inlaid o site

theorem path_to_inside (m : Mark) (t : String) (a : Attrs) (path : List Step) (before after : List Marked) (n : Tree) :
    Site.parentTag? ⟨n.mapMarks unmarked, Site.pathTo (.element m t a) path before after (n.mapMarks unmarked)⟩ =
      some t := by
  cases n <;> rfl

mutual

theorem inlaid_flat (o : Options) (path : List Step) (n : Tree) (parent : String) (other : parent ≠ "pre")
    (inside : Site.parentTag? ⟨n.mapMarks unmarked, path⟩ = some parent)
    (lines : ∀ below ∈ Site.within path (n.mapMarks unmarked), below.parentTag? = none ∨ Inlaid o below) : Flat n := by
  have own : Inlaid o ⟨n.mapMarks unmarked, path⟩ := by
    refine (lines _ ?_).resolve_left (by simp [inside])
    cases n <;> exact List.mem_cons_self
  cases n with
  | text m data | comment m data => trivial
  | document m ks => exact own.elim
  | element m t a ks =>
      have named : t = "br" ∨ Unclaimed t a := by
        rcases own with broken | ⟨inline, found⟩
        · exact .inl broken
        · have outside : Site.parentTag? ⟨.element (unmarked m) t a (mapAllMarks unmarked ks), path⟩ ≠ some "pre" :=
            fun pre => other (Option.some.inj (inside.symm.trans pre))
          have laid := default_laid o _ t a _ path (absurd · outside) found
          exact .inr ⟨inline, default_unclaimed o _ t a _ path laid inline found, laid.targetless⟩
      have inner : t ≠ "pre" := by
        rcases named with rfl | unclaimed
        · decide
        · exact Render.unclaimed_other t a unclaimed "pre" (by decide)
      exact ⟨named, inlaid_flat_all o (unmarked m) t a path [] ks inner
        (fun below member => lines below (List.mem_cons_of_mem _ member))⟩

theorem inlaid_flat_all (o : Options) (m : Mark) (t : String) (a : Attrs) (path : List Step) (before : List Marked)
    (ks : List Tree) (other : t ≠ "pre") (lines : ∀ below ∈ Site.among (.element m t a) path before
      (mapAllMarks unmarked ks), below.parentTag? = none ∨ Inlaid o below) : FlatAll ks := by
  cases ks with
  | nil => trivial
  | cons n rest =>
      rw [mapAllMarks, Site.among, List.forall_mem_append] at lines
      exact ⟨inlaid_flat o _ n t other (path_to_inside m t a path before _ n) lines.1,
        inlaid_flat_all o m t a path _ rest other lines.2⟩

end

theorem blocks_flat (o : Options) (before : List Marked) (ks : List Tree) (blocks : ∀ n ∈ ks, n.tag ∈ lineTags)
    (lines : ∀ site ∈ Site.among (.document {}) [] before (mapAllMarks unmarked ks),
      site.parentTag? = none ∨ Inlaid o site) : ∀ n ∈ ks, FlatAll n.kids := by
  induction ks generalizing before with
  | nil => exact nofun
  | cons n rest ih =>
      rw [List.forall_mem_cons] at blocks ⊢
      rw [mapAllMarks, Site.among, List.forall_mem_append] at lines
      refine ⟨?_, ih _ blocks.2 lines.2⟩
      obtain ⟨m, t, a, ks, rfl, listed⟩ := lined_element n blocks.1
      exact inlaid_flat_all o (unmarked m) t a _ [] ks (lined_other t listed).2.2.1
        (List.forall_mem_cons.mp lines.1).2

theorem prose_flat (o : Options) (ks : List Tree) (prose : Prose o ks) : ∀ n ∈ ks, FlatAll n.kids :=
  blocks_flat o [] ks prose.blocks prose.lines

namespace Node

mutual

theorem flat_inline {μ : Type} (n : Node μ) (flat : n.Flat) : ∀ below ∈ n :: n.descendants, below.isBlock = false := by
  cases n with
  | text | comment => exact List.forall_mem_singleton.mpr rfl
  | document m ks => exact flat.elim
  | element m t a ks =>
      obtain ⟨named, below⟩ := flat
      refine List.forall_mem_cons.mpr ⟨?_, flat_all_inline ks below⟩
      rcases named with rfl | unclaimed
      · rfl
      · exact unclaimed.inline

theorem flat_all_inline {μ : Type} (ks : List (Node μ)) (flat : FlatAll ks) :
    ∀ below ∈ forest ks, below.isBlock = false := by
  cases ks with
  | nil => exact nofun
  | cons n rest =>
      rw [forest, ← List.cons_append, List.forall_mem_append]
      exact ⟨flat_inline n flat.1, flat_all_inline rest flat.2⟩

end

end Node

namespace Render

theorem blocks_bodiless (ks : List Tree) (blocks : ∀ n ∈ ks, n.tag ∈ lineTags) (flat : ∀ n ∈ ks, FlatAll n.kids) :
    Bodiless ks := by
  induction ks with
  | nil => exact nofun
  | cons n rest ih =>
      rw [List.forall_mem_cons] at blocks flat
      obtain ⟨m, t, a, ks, rfl, listed⟩ := lined_element n blocks.1
      intro below member
      rw [forest, List.mem_cons, List.mem_append] at member
      rcases member with rfl | inside | later
      · simpa [isNamed] using (lined_other t listed).2.2.2
      · have inline := flat_all_inline ks flat.1 below inside
        cases below with
        | text | comment | document => rfl
        | element m' t' a' ks' =>
            refine beq_eq_false_iff_ne.mpr ?_
            rintro rfl
            cases inline
      · exact ih blocks.2 flat.2 below later

theorem prepared_blocks (o : Options) (ks : List Tree) (prose : Prose o ks) (m : Mark) (below : List Marked)
    (shape : prepare o (unmark (.document () ks)) = .document m below) (same : bareAll below = ks) :
    ∀ n ∈ below, BlockOfLines n := by
  intro n member
  have listed : bare n ∈ ks := by
    rw [← same, bareAll, map_all_marks_map]
    exact List.mem_map_of_mem member
  have marks := prepare_noted o _ (fresh_noted (.document () ks) {} rfl)
  have flags := prepared_flags o (unmark (.document () ks))
  rw [shape] at flags
  have inside : n ∈ (Node.document m below).descendants := kid_below (.document m below) n member
  refine ⟨?_, ?_, ?_, flagged_below _ flags n (List.mem_cons_of_mem _ inside)⟩
  · have tag := prose.blocks _ listed
    rwa [Node.bare, map_marks_tag] at tag
  · have flat := prose_flat o ks prose _ listed
    cases n with
    | text | comment => trivial
    | element m' t a kids | document m' kids => exact (flat_all_marks _ kids).mp flat
  · have noted : Noted [.document m below] := shape ▸ marks
    exact noted_below _ n noted (List.mem_cons_of_mem _ inside)

/-- A document of paragraphs and headings, converted with a backslash to mark a break, has a stray one exactly if no
text comes after some break of a paragraph, or if a heading has a break. -/
theorem break_stray_iff (o : Options) (marker : o.lineBreak = .backslash) (ks : List Tree) (prose : Prose o ks) :
    ∃ out, conversion o (.document () ks) = .ok out ∧ (Stray out ↔ ∃ n ∈ ks, n.EndsOpen) := by
  have unfound := bodiless_unfound ks (blocks_bodiless ks prose.blocks (prose_flat o ks prose))
  obtain ⟨head, below, top⟩ := bodiless_top o () ks unfound
  have bared : bare (head.close below) = .document () ks := by
    rw [← top.shape, prepare_bare]
    exact bare_marked _ _
  cases head with
  | element m t a => cases bared
  | document m =>
      have same : bareAll below = ks := (Node.document.inj bared).2
      obtain ⟨whole, rendered, stray⟩ := blocks_written o marker (logged (.document () ks)) rfl rfl (.document m)
        (by simp [Head.tag]) [] nofun [] [] below (prepared_blocks o ks prose m below top.shape same)
      refine ⟨_, conversion_ok o _ whole (by rw [top.rendered]; exact rendered), ?_⟩
      rw [stray_trimmed, stray, or_iff_right (show ¬ Stray [] from bare_nil _), ← same, bareAll, map_all_marks_map]
      simp [ends_open_marks]

-- Two breaks in a row, the second one inside of an element, with a text after them.
def doubledBreak : Tree :=
  .element () "p" []
    [.text () ['a'], .element () "br" [] [], .element () "span" [] [.element () "br" [] [], .text () ['b']]]

theorem doubled_break_goes_on : Prose { lineBreak := .backslash } [doubledBreak] ∧
    ∃ out, conversion { lineBreak := .backslash } (.document () [doubledBreak]) = .ok out ∧ ¬ Stray out := by
  have prose : Prose { lineBreak := .backslash } [doubledBreak] := by
    refine ⟨List.forall_mem_singleton.mpr (by decide), ?_⟩
    simp only [doubledBreak, Site.ofTree, mapMarks, mapAllMarks, Site.all, Site.within, Site.among, List.tail_cons,
      List.cons_append, List.nil_append, List.forall_mem_cons]
    exact ⟨.inl rfl, .inr trivial, .inr (.inl rfl), .inr (.inr ⟨by decide, rfl⟩), .inr (.inl rfl), .inr trivial,
      by simp⟩
  obtain ⟨out, converted, stray⟩ := break_stray_iff { lineBreak := .backslash } rfl [doubledBreak] prose
  refine ⟨prose, out, converted, fun found => ?_⟩
  have shown : doubledBreak.leaves = [.text ['a'], .lineBreak, .lineBreak] ++ [.text ['b']] := by decide
  obtain ⟨n, listed, ⟨-, off⟩ | ⟨heading, -⟩⟩ := stray.mp found
  · rw [List.mem_singleton.mp listed, shown, breaks_off_append] at off
    rcases off with last | ⟨-, blank⟩
    · exact absurd (breaks_off_listed _ last) (by decide)
    · exact absurd (blank _ List.mem_cons_self) (by decide)
  · rw [List.mem_singleton.mp listed] at heading
    exact absurd heading (by decide)

theorem trailing_break_stray : ¬ ∀ (o : Options) (ks : List Tree), o.lineBreak = .backslash → Prose o ks →
    ∃ out, conversion o (.document () ks) = .ok out ∧ ¬ Stray out := by
  intro claim
  have prose : Prose { lineBreak := .backslash } [.element () "p" [] [.text () ['a'], .element () "br" [] []]] := by
    refine ⟨List.forall_mem_singleton.mpr (by decide), ?_⟩
    simp only [Site.ofTree, mapMarks, mapAllMarks, Site.all, Site.within, Site.among, List.tail_cons, List.cons_append,
      List.nil_append, List.forall_mem_cons]
    exact ⟨.inl rfl, .inr trivial, .inr (.inl rfl), by simp⟩
  obtain ⟨out, converted, hidden⟩ := claim { lineBreak := .backslash } _ rfl prose
  have evaluated : conversion { lineBreak := .backslash }
      (.document () [.element () "p" [] [.text () ['a'], .element () "br" [] []]]) = .ok ['a', '\\'] := rfl
  obtain rfl := Except.ok.inj (converted.symm.trans evaluated)
  refine hidden ⟨['a'], [], rfl, by decide, rfl, ?_⟩
  rintro ⟨rest, more, -⟩
  cases more

end Render

end Downmark
