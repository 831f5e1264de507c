import Downmark.Proofs.BrokenLines
import Downmark.Proofs.HarmlessTrees
import Downmark.Proofs.NotedTexts
import Downmark.Proofs.RenderedTop
/-!
Texts and breaks of lines below a block, where a backslash marks each break. Main statement: they are written so that a
backslash stands before punctuation or breaks a line, a line is broken nowhere else, and the last line is blank exactly
if no text comes after the last break.
-/

set_option autoImplicit false

namespace Downmark

open Text Escape Node

/-- A text, or a break of a line. -/
inductive Leaf where
  | text (data : Chars)
  | lineBreak
deriving DecidableEq

def Leaf.isBlank : Leaf → Bool
  | .text data => isBlankText data
  | .lineBreak => false

/-- Whether no text comes after one of the breaks. -/
def BreaksOff (ls : List Leaf) : Prop :=
  ∃ before after, ls = before ++ .lineBreak :: after ∧ ∀ leaf ∈ after, leaf.isBlank

namespace Node

variable {μ ν : Type}

mutual

/-- The texts and breaks of a node in their order. What is inside of a break is not shown. -/
def leaves : Node μ → List Leaf
  | .text _ data => [.text data]
  | .comment _ _ => []
  | .document _ _ => []
  | .element _ t _ ks => if t = "br" then [.lineBreak] else leavesOf ks

def leavesOf : List (Node μ) → List Leaf
  | [] => []
  | n :: rest => leaves n ++ leavesOf rest

end

mutual

theorem leaves_marks (f : μ → ν) (n : Node μ) : (n.mapMarks f).leaves = n.leaves := by
  cases n with
  | text | comment | document => rfl
  | element m t a ks => rw [mapMarks, leaves, leaves, leaves_of_marks f ks]

theorem leaves_of_marks (f : μ → ν) (ks : List (Node μ)) : leavesOf (mapAllMarks f ks) = leavesOf ks := by
  cases ks with
  | nil => rfl
  | cons n rest => rw [mapAllMarks, leavesOf, leavesOf, leaves_marks f n, leaves_of_marks f rest]

end

mutual

theorem hollow_leaves (n : Node μ) (hollow : n.isSolid = false) : ∀ leaf ∈ n.leaves, leaf.isBlank := by
  cases n with
  | text m data =>
      rw [text_solid] at hollow
      simpa [leaves, Leaf.isBlank] using hollow
  | comment | document => exact nofun
  | element m t a ks =>
      rw [element_solid, Bool.or_eq_false_iff] at hollow
      have other : t ≠ "br" := by
        rintro rfl
        exact absurd hollow.1 (by decide)
      rw [leaves, if_neg other]
      exact hollow_leaves_of ks hollow.2

theorem hollow_leaves_of (ks : List (Node μ)) (hollow : ks.any isSolid = false) :
    ∀ leaf ∈ leavesOf ks, leaf.isBlank := by
  cases ks with
  | nil => exact nofun
  | cons n rest =>
      rw [List.any_cons, Bool.or_eq_false_iff] at hollow
      rw [leavesOf, List.forall_mem_append]
      exact ⟨hollow_leaves n hollow.1, hollow_leaves_of rest hollow.2⟩

end

end Node

theorem breaks_off_append (a b : List Leaf) :
    BreaksOff (a ++ b) ↔ BreaksOff b ∨ BreaksOff a ∧ ∀ leaf ∈ b, leaf.isBlank := by
  constructor
  · rintro ⟨before, after, split, blank⟩
    rcases List.append_eq_append_iff.mp split with ⟨front, rfl, later⟩ | ⟨front, rfl, here⟩
    · exact .inl ⟨front, after, later, blank⟩
    · cases front with
      | nil => exact .inl ⟨[], after, here.symm, blank⟩
      | cons leaf front =>
          obtain ⟨rfl, rfl⟩ := List.cons.inj here
          have parts := List.forall_mem_append.mp blank
          exact .inr ⟨⟨before, front, rfl, parts.1⟩, parts.2⟩
  · rintro (⟨before, after, rfl, blank⟩ | ⟨⟨before, after, rfl, blank⟩, rest⟩)
    · exact ⟨a ++ before, after, by rw [List.append_assoc], blank⟩
    · exact ⟨before, after ++ b, by rw [List.append_assoc, List.cons_append], List.forall_mem_append.mpr ⟨blank, rest⟩⟩

theorem breaks_off_listed (ls : List Leaf) (off : BreaksOff ls) : .lineBreak ∈ ls := by
  obtain ⟨before, after, rfl, -⟩ := off
  simp

theorem blank_no_break (ls : List Leaf) (blank : ∀ leaf ∈ ls, leaf.isBlank) : .lineBreak ∉ ls := fun member =>
  absurd (blank _ member) (by decide)

namespace Escape

open Spot Render

/-- What some texts and breaks are written as: a reader loses its way nowhere, and knows at the end what is open. -/
structure Lays (s : Chars) (ls : List Leaf) : Prop where
  walks : ∀ spot ≠ slash, ∃ last ≠ slash, spot.walk s = some last ∧
    (last.Hangs ↔ BreaksOff ls ∨ spot.Hangs ∧ ∀ leaf ∈ ls, leaf.isBlank)
  broken : '\n' ∈ s ↔ .lineBreak ∈ ls

theorem lays_nil : Lays [] [] := by
  refine ⟨fun spot other => ⟨spot, other, rfl, ?_⟩, by simp⟩
  simp [BreaksOff]

theorem lays_append (a b : Chars) (before after : List Leaf) (first : Lays a before) (later : Lays b after) :
    Lays (a ++ b) (before ++ after) := by
  refine ⟨fun spot other => ?_, by rw [List.mem_append, List.mem_append, first.broken, later.broken]⟩
  obtain ⟨mid, beyond, here, opened⟩ := first.walks spot other
  obtain ⟨last, ends, there, told⟩ := later.walks mid beyond
  refine ⟨last, ends, by rw [walk_append, here, Option.bind_some, there], ?_⟩
  rw [told, opened, breaks_off_append, List.forall_mem_append, or_and_right, and_assoc, or_assoc]

theorem lays_join (a b : Chars) (ls : List Leaf) (lays : Lays (a ++ b) ls) : join a b = a ++ b := by
  obtain ⟨last, -, walked, -⟩ := lays.walks within (by decide)
  exact join_walk within last a b walked

theorem lays_text (text data ahead : Chars) (line : '\n' ∉ text) (same : isBlankText text = isBlankText data) :
    Lays (markdown text ahead) [.text data] := by
  have free : '\n' ∉ markdown text ahead := spelled_free inlineSpecial true text _ (markdown_spelled text ahead) line
  have block : ¬ BlockStart (markdown text ahead) :=
    markdown_no_block text ahead _ (by rw [lines_free _ free]; exact List.mem_singleton_self _)
  have head (c : Char) (opens : ∀ rest, BlockStart (c :: rest)) : (markdown text ahead).head? ≠ some c := by
    intro first
    obtain ⟨rest, shape⟩ := List.head?_eq_some_iff.mp first
    rw [shape] at block
    exact block (opens rest)
  refine ⟨fun spot other => ?_, by simp [free]⟩
  obtain ⟨last, ends, walked, told⟩ := walk_reads _ text (markdown_reads text ahead) line spot other fun _ =>
    ⟨head '=' .underline, head '-' .dash⟩
  refine ⟨last, ends, walked, ?_⟩
  have none : ¬ BreaksOff [.text data] := fun off => absurd (breaks_off_listed _ off) (by simp)
  rw [told, same, or_iff_right none, List.forall_mem_singleton, Leaf.isBlank]

theorem lays_break (before after : Chars) (first : ∀ c ∈ before, isGap c) (last : ∀ c ∈ after, isGap c) :
    Lays (before ++ '\\' :: '\n' :: after) [.lineBreak] := by
  refine ⟨fun spot other => ?_, by simp⟩
  obtain ⟨mid, beyond, here, -⟩ := walk_gaps before first spot other
  obtain ⟨final, ends, there, hangs, -⟩ := walk_gaps after last fresh (by decide)
  have broken : mid.walk ('\\' :: '\n' :: after) = some final := by
    rw [walk_cons, next_slash mid beyond, Option.bind_some, walk_cons, next_break, Option.bind_some, there]
  refine ⟨final, ends, by rw [walk_append, here, Option.bind_some, broken], ?_⟩
  exact iff_of_true (hangs.mpr (.inl rfl)) (.inl ⟨[], [], rfl, nofun⟩)

-- A gap is no place to lose one's way, so those at the ends of content may be left out.
theorem framed_walk (dropped : Bool) (output content : Chars) (spot last : Spot) (other : spot ≠ slash)
    (stale : endsInGap output = true → spot ≠ fresh) (walked : spot.walk content = some last) (ends : last ≠ slash) :
    ∃ near ≠ slash, spot.walk (Render.framed false dropped output content) = some near ∧
      (near.Hangs ↔ last.Hangs) := by
  have parts := Render.flanking_whole content
  obtain ⟨first, final⟩ := Render.flanking_gaps content
  unfold Render.framed
  generalize Whitespace.flanking content = split at parts first final ⊢
  obtain ⟨leading, core, trailing⟩ := split
  simp only at parts first final ⊢
  subst parts
  have begun : spot.walk ((if endsInGap output then [] else leading) ++ core ++ trailing) = some last := by
    split
    · rename_i gap
      obtain ⟨same, -, here, -, stays⟩ := walk_gaps leading first spot other
      obtain rfl := stays (stale gap)
      rw [List.append_assoc, walk_append, here, Option.bind_some] at walked
      rwa [List.nil_append]
    · exact walked
  rw [if_neg Bool.false_ne_true]
  cases dropped with
  | false => exact ⟨last, ends, begun, Iff.rfl⟩
  | true =>
      rw [if_pos rfl, List.append_nil]
      exact walk_gaps_back spot last _ trailing final begun ends

theorem gap_end (spot last : Spot) (s : Chars) (walked : spot.walk s = some last) (gap : endsInGap s = true) :
    last ≠ fresh := by
  rw [ends_in_gap] at gap
  cases shape : s.getLast? with
  | none => simp [shape] at gap
  | some c =>
      have here : isGap c := by simpa [shape] using gap
      obtain ⟨body, rfl⟩ := List.getLast?_eq_some_iff.mp shape
      obtain ⟨blank, line⟩ := gap_step c here
      rw [walk_append, Option.bind_eq_some_iff] at walked
      obtain ⟨mid, -, walked⟩ := walked
      rw [walk_cons, Option.bind_eq_some_iff] at walked
      obtain ⟨later, step, rest⟩ := walked
      cases rest
      rintro rfl
      by_cases slashed : mid = slash
      · subst slashed
        rcases slash_cases fresh c step with ⟨-, same⟩ | ⟨same, -⟩
        · cases same
        · exact line same
      · obtain ⟨other, -, stale, same, -⟩ := next_blank mid slashed c blank line
        rw [step] at same
        exact stale (Option.some.inj same).symm

theorem gaps_line (gaps : Chars) (all : ∀ c ∈ gaps, isGap c) : '\n' ∉ gaps := fun member =>
  absurd (all _ member) (by decide)

theorem lays_blank (gaps : Chars) (all : ∀ c ∈ gaps, isGap c) (ls : List Leaf) (blank : ∀ leaf ∈ ls, leaf.isBlank) :
    Lays gaps ls := by
  have none := blank_no_break ls blank
  refine ⟨fun spot other => ?_, iff_of_false (gaps_line gaps all) none⟩
  obtain ⟨last, ends, walked, hangs, -⟩ := walk_gaps gaps all spot other
  refine ⟨last, ends, walked, ?_⟩
  rw [hangs, or_iff_right fun off => none (breaks_off_listed ls off), and_iff_left blank]

theorem framed_gaps (dropped : Bool) (output content : Chars) : ∀ c ∈ framed true dropped output content, isGap c := by
  obtain ⟨first, last⟩ := flanking_gaps content
  intro c member
  simp only [framed, if_true, List.append_nil, List.mem_append] at member
  rcases member with here | there
  · split at here
    · cases here
    · exact first c here
  · split at there
    · cases there
    · exact last c there

theorem framed_broken (dropped : Bool) (output content : Chars) :
    '\n' ∈ framed false dropped output content ↔ '\n' ∈ content := by
  have parts := flanking_whole content
  obtain ⟨first, last⟩ := flanking_gaps content
  have front : '\n' ∉ if endsInGap output then [] else (Whitespace.flanking content).1 := by
    split
    · exact nofun
    · exact gaps_line _ first
  have back : '\n' ∉ if dropped then [] else (Whitespace.flanking content).2.2 := by
    split
    · exact nofun
    · exact gaps_line _ last
  conv => rhs; rw [← parts]
  simp only [framed, List.mem_append, front, back, gaps_line _ first, gaps_line _ last, false_or, or_false,
    if_neg Bool.false_ne_true]

theorem lays_framed (blank dropped : Bool) (output content : Chars) (before ls : List Leaf)
    (written : Lays output before) (inside : Lays content ls) (hollow : blank = true → ∀ leaf ∈ ls, leaf.isBlank) :
    Lays (output ++ framed blank dropped output content) (before ++ ls) := by
  cases blank with
  | true => exact lays_append _ _ before ls written (lays_blank _ (framed_gaps dropped output content) ls (hollow rfl))
  | false =>
      refine ⟨fun spot other => ?_, ?_⟩
      · obtain ⟨mid, beyond, here, opened⟩ := written.walks spot other
        obtain ⟨last, ends, there, told⟩ := inside.walks mid beyond
        obtain ⟨near, stops, walked, same⟩ := framed_walk dropped output content mid last beyond
          (gap_end spot mid output here) there ends
        refine ⟨near, stops, by rw [walk_append, here, Option.bind_some, walked], ?_⟩
        rw [same, told, opened, breaks_off_append, List.forall_mem_append, or_and_right, and_assoc, or_assoc]
      · rw [List.mem_append, List.mem_append, framed_broken, written.broken, inside.broken]

end Escape

theorem ink_blank (s : Chars) : isBlankText (Glyph.ink s) = isBlankText s := by
  rw [Glyph.ink, isBlankText, isBlankText, List.all_filter]
  refine congrArg (s.all ·) (funext fun c => ?_)
  cases gap : Whitespace.isCollapsible c with
  | true => rw [Whitespace.collapsible_blank c gap]; rfl
  | false => rfl

-- An inline element that no rule claims, with content or without.
structure Unclaimed (t : String) (a : Attrs) : Prop where
  inline : isBlockTag t = false
  unlisted : t ∉ claimedTags
  targetless : t = "a" → (a.lookup "href").getD [] = []

namespace Node

variable {μ ν : Type}

mutual

/-- Text, breaks of lines, and inline elements that no rule claims. -/
def Flat : Node μ → Prop
  | .text _ _ => True
  | .comment _ _ => True
  | .document _ _ => False
  | .element _ t a ks => (t = "br" ∨ Unclaimed t a) ∧ FlatAll ks

def FlatAll : List (Node μ) → Prop
  | [] => True
  | n :: rest => Flat n ∧ FlatAll rest

end

mutual

theorem flat_marks (f : μ → ν) (n : Node μ) : (n.mapMarks f).Flat ↔ n.Flat := by
  cases n with
  | text | comment | document => exact Iff.rfl
  | element m t a ks => rw [mapMarks, Flat, Flat, flat_all_marks f ks]

theorem flat_all_marks (f : μ → ν) (ks : List (Node μ)) : FlatAll (mapAllMarks f ks) ↔ FlatAll ks := by
  cases ks with
  | nil => exact Iff.rfl
  | cons n rest => rw [mapAllMarks, FlatAll, FlatAll, flat_marks f n, flat_all_marks f rest]

end

end Node

namespace Render

theorem unclaimed_other (t : String) (a : Attrs) (unclaimed : Unclaimed t a) (name : String)
    (listed : name ∈ claimedTags) : t ≠ name := fun same => unclaimed.unlisted (same ▸ listed)

section

variable (o : Options) (s : State)

theorem break_replaced (marker : o.lineBreak = .backslash) (m : Mark) (a : Attrs) (ks : List Marked) (path : List Step)
    (prose : ∀ step ∈ path, step.head.tag ≠ "code") (output content : Chars) :
    ∃ before after, replace breakRule ⟨.element m "br" a ks, path⟩ o content output s =
        .ok (before ++ '\\' :: '\n' :: after) s ∧ (∀ c ∈ before, isGap c) ∧ ∀ c ∈ after, isGap c := by
  obtain ⟨first, last⟩ := flanking_gaps content
  have written (core : Chars) : breakRule.replacement core ⟨.element m "br" a ks, path⟩ o s = .ok ['\\', '\n'] s := by
    change EStateM.Result.ok (o.lineBreak.text ++ ['\n']) s = _
    rw [marker]
    rfl
  have replaced := replace_inner breakRule ⟨.element m "br" a ks, path⟩ o rfl (prose_site o _ path rfl prose) content
    output _ s s (written _)
  refine ⟨_, _, replaced.trans (by rw [List.append_assoc]; rfl), ?_, ?_⟩
  · split
    · exact nofun
    · exact first
  · split
    · exact nofun
    · exact last

variable (uncoded : s.inCode = false) (flowing : s.inPreformatted = false)

include uncoded flowing in
theorem text_lays (opened : List Open) (m : Mark) (data : Chars) (noted : Noted [.text m data]) :
    Lays (textOutput s o opened m data) [.text data] := by
  have regapped := (noted_text m data).mp noted
  have read : s.textOf o m data = Whitespace.shown m data := by
    cases here : m.shown <;> simp [State.textOf, Whitespace.shown, Whitespace.noted, here, uncoded, flowing]
  have line : '\n' ∉ Whitespace.shown m data := spaced_newline _ regapped.spaced
  have blank : isBlankText (Whitespace.shown m data) = isBlankText data := by
    rw [← ink_blank, regapped.inked, ink_blank]
  have output : textOutput s o opened m data = markdown (Whitespace.shown m data)
      (if (Whitespace.shown m data).head? == some '.' then lineSoFar opened else []) := by
    rw [textOutput, read, uncoded, flowing]
    rfl
  rw [output]
  exact lays_text _ data _ line blank

theorem break_passed (m : Mark) (a : Attrs) (ks : List Marked) (path : List Step) :
    ({} : RuleTable).find ⟨.element m "br" a ks, path⟩ o false = .ok breakRule ∧
      Passed o "br" ⟨.element m "br" a ks, path⟩ s s :=
  ⟨rfl, inline_passed o m "br" a ks path s rfl⟩

theorem unclaimed_passed (m : Mark) (t : String) (a : Attrs) (ks : List Marked) (path : List Step)
    (unclaimed : Unclaimed t a) : ({} : RuleTable).find ⟨.element m t a ks, path⟩ o m.blank =
      .ok (if m.blank then Rule.blank else Rule.default) ∧ Passed o t ⟨.element m t a ks, path⟩ s s := by
  have passed := inline_passed o m t a ks path s unclaimed.inline
  rw [passed.coded (unclaimed_other t a unclaimed "code" (by decide))] at passed
  refine ⟨?_, passed⟩
  have first := unlisted_unclaimed o m t a ks path unclaimed.unlisted unclaimed.targetless
  cases m.blank with
  | true => rfl
  | false => simp [RuleTable.find, first]

end

mutual

theorem node_lays (o : Options) (marker : o.lineBreak = .backslash) (s : State) (uncoded : s.inCode = false)
    (flowing : s.inPreformatted = false) (outer : List Open) (isBlock : Bool) (path : List Step)
    (prose : ∀ step ∈ path, step.head.tag ≠ "code") (output : Chars) (before : List Leaf) (lays : Lays output before)
    (n : Marked) (flat : Flat n) (noted : Noted [n]) (flagged : Flagged n) :
    ∃ out, node {} o outer isBlock path output n s = .ok out s ∧ Lays out (before ++ n.leaves) := by
  cases n with
  | text m data =>
      have whole := lays_append _ _ _ _ lays
        (text_lays o s uncoded flowing (⟨output, isBlock⟩ :: outer) m data noted)
      refine ⟨_, rfl, ?_⟩
      rwa [lays_join _ _ _ whole]
  | comment m data => exact ⟨output, rfl, by rwa [leaves, List.append_nil]⟩
  | document m ks => exact flat.elim
  | element m t a ks =>
      obtain ⟨named, below⟩ := flat
      rw [noted_element] at noted
      have uncoded' : t ≠ "code" := by
        rcases named with rfl | unclaimed
        · decide
        · exact unclaimed_other t a unclaimed "code" (by decide)
      obtain ⟨content, rendered, inside⟩ := nodes_lays o marker s uncoded flowing (⟨output, isBlock⟩ :: outer)
        (isBlockTag t) (.element m t a) uncoded' path prose [] [] [] lays_nil ks below noted flagged.2
      rcases named with rfl | unclaimed
      · obtain ⟨found, passed⟩ := break_passed o s m a ks path
        have solid : m.blank = false := by
          rw [flagged.1, element_solid]
          rfl
        obtain ⟨front, back, replaced, first, last⟩ := break_replaced o s marker m a ks path prose output content
        have whole := lays_append _ _ _ _ lays (lays_break front back first last)
        refine ⟨_, node_replaced {} o outer isBlock path output m "br" a ks breakRule content _ (solid ▸ found) rfl
          passed.entered rendered replaced passed.left, ?_⟩
        rwa [lays_join _ _ _ whole]
      · obtain ⟨found, passed⟩ := unclaimed_passed o s m t a ks path unclaimed
        obtain ⟨dropped, written, -⟩ := inline_written o outer isBlock path output m t a ks s s unclaimed.inline
          (prose_site o _ path (by simpa [isNamed] using uncoded') prose) found passed content rendered
        have whole := lays_framed m.blank dropped output content before (leavesOf ks) lays inside fun blank =>
          hollow_leaves_of ks (flagged_hollow m t a ks flagged blank)
        refine ⟨_, written, ?_⟩
        rwa [leaves, if_neg (unclaimed_other t a unclaimed "br" (by decide)), lays_join _ _ _ whole]

theorem nodes_lays (o : Options) (marker : o.lineBreak = .backslash) (s : State) (uncoded : s.inCode = false)
    (flowing : s.inPreformatted = false) (outer : List Open) (isBlock : Bool) (head : Head) (named : head.tag ≠ "code")
    (path : List Step) (prose : ∀ step ∈ path, step.head.tag ≠ "code") (passed : List Marked) (output : Chars)
    (before : List Leaf) (lays : Lays output before) (ks : List Marked) (flat : FlatAll ks) (noted : Noted ks)
    (flagged : FlaggedAll ks) :
    ∃ out, nodes {} o outer isBlock head path passed output ks s = .ok out s ∧ Lays out (before ++ leavesOf ks) := by
  cases ks with
  | nil => exact ⟨output, rfl, by rwa [leavesOf, List.append_nil]⟩
  | cons n rest =>
      rw [noted_cons] at noted
      have around := path_prose head path passed rest n named prose
      obtain ⟨out, written, between⟩ := node_lays o marker s uncoded flowing outer isBlock
        (Site.pathTo head path passed rest n) around output before lays n flat.1 noted.1 flagged.1
      obtain ⟨final, finished, after⟩ := nodes_lays o marker s uncoded flowing outer isBlock head named path prose
        (n :: passed) out _ between rest flat.2 noted.2 flagged.2
      refine ⟨final, ?_, by rwa [leavesOf, ← List.append_assoc]⟩
      rw [nodes, bind_of_ok _ _ _ _ _ written, finished]

end

end Render

end Downmark
