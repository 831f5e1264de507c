import Downmark.Proofs.BlockOpeners
import Downmark.Proofs.SplitText
/-!
Paragraphs and preformatted text without markup of their own. What is already written on a line may belong to other
open elements, so lines are followed back to the innermost block. Main statement: whatever is noted on such a tree, no
line of what it is rendered to opens a block unless it is indented, and then only if a line of some text does so.
-/

set_option autoImplicit false

namespace Downmark

-- Void elements that leave nothing, as long as they have no children.
structure Silent (t : String) (a : Attrs) : Prop where
  inline : isBlockTag t = false
  void : isVoidTag t = true
  unbroken : t ≠ "br"
  sourceless : t = "img" → (a.lookup "src").getD [] = []

mutual

def Bland {μ : Type} : Node μ → Prop
  | .text _ _ => True
  | .comment _ _ => True
  | .document _ _ => False
  | .element _ t a ks =>
    (t = "p" ∨ (t = "pre" ∧ ks.any (Node.isNamed "code") = false) ∨ Plain t a ∨ (Silent t a ∧ ks = [])) ∧ BlandAll ks

def BlandAll {μ : Type} : List (Node μ) → Prop
  | [] => True
  | n :: rest => Bland n ∧ BlandAll rest

end

-- The texts below a node as they are read for rendering.
mutual

def readTexts (keep kept : Bool) : Marked → List Chars
  | .text m data => [m.shown.getD (if kept then data else Whitespace.squeeze data)]
  | .comment _ _ => []
  | .document _ ks => readTextsOf keep kept ks
  | .element _ t _ ks => readTextsOf keep (kept || Whitespace.isKept keep t) ks

def readTextsOf (keep kept : Bool) : List Marked → List Chars
  | [] => []
  | n :: rest => readTexts keep kept n ++ readTextsOf keep kept rest

end

theorem silent_unlisted (t : String) (a : Attrs) (silent : Silent t a) (plain : t ≠ "img") : t ∉ claimedTags := by
  intro listed
  have known : ∀ name ∈ claimedTags, isVoidTag name = true → isBlockTag name = true ∨ name = "br" ∨ name = "img" := by
    decide
  rcases known t listed silent.void with block | broken | image
  · rw [silent.inline] at block
    cases block
  · exact silent.unbroken broken
  · exact plain image

theorem silent_other (t : String) (a : Attrs) (silent : Silent t a) (name : String) (filled : isVoidTag name = false) :
    t ≠ name := by
  rintro rfl
  rw [silent.void] at filled
  cases filled

namespace Render

open Escape

-- All that is written since the innermost block was entered.
def reach : List Open → Chars
  | [] => []
  | inner :: outer => (if inner.isBlock then [] else reach outer) ++ inner.output

theorem line_so_far (opened : List Open) : lineSoFar opened = Text.lastLine (reach opened) := by
  induction opened with
  | nil => rfl
  | cons inner outer ih =>
      have tail : Text.ending (· != '\n') inner.output = Text.lastLine inner.output := rfl
      rw [lineSoFar, reach, ih, tail, Text.last_line_append]
      by_cases broken : '\n' ∈ inner.output
      · simp [broken]
      · rw [Text.last_line_free inner.output broken]
        cases inner.isBlock <;> simp [broken, Text.lastLine, Text.ending]

theorem ends_read (w s : Chars) (reads : Reads w s) (ends : startsWithMarkerEnd w = true) : s.head? = some '.' := by
  obtain ⟨rest, rfl⟩ := marker_end_period w ends
  obtain ⟨tail, rfl, -⟩ := reads_behind ['.'] rest s reads (by simp)
  rfl

section

variable {excuse : Prop}

theorem text_output_harmless (o : Options) (s : State) (uncoded : s.inCode = false) (opened : List Open) (m : Mark)
    (data : Chars) (excused : Indented (s.textOf o m data) → excuse) :
    Harmless excuse (textOutput s o opened m data) ∧ (isNumberSoFar (Text.lastLine (reach opened)) = true →
      startsWithMarkerEnd (textOutput s o opened m data) = false) := by
  unfold textOutput
  rw [uncoded, line_so_far]
  generalize s.textOf o m data = text at excused ⊢
  have apart (w : Chars) (reads : Reads w text) (other : text.head? ≠ some '.') : startsWithMarkerEnd w = false := by
    cases ends : startsWithMarkerEnd w with
    | false => rfl
    | true => exact absurd (ends_read w text reads ends) other
  dsimp only
  rw [if_neg Bool.false_ne_true]
  by_cases period : text.head? = some '.'
  · simp only [period, beq_self_eq_true, if_true]
    split
    · exact ⟨preformatted_harmless text _ excused, fun number => split_marker_ends _ _ number⟩
    · exact ⟨markdown_harmless text _ excused, fun number => split_marker_ends _ _ number⟩
  · have none : (text.head? == some '.') = false := by simpa using period
    rw [none, if_neg Bool.false_ne_true]
    split
    · exact ⟨preformatted_harmless text [] excused, fun _ => apart _ (preformatted_reads text []) period⟩
    · exact ⟨markdown_harmless text [] excused, fun _ => apart _ (markdown_reads text []) period⟩

-- Gaps at the ends of inline content are moved or dropped, and they never stand between a marker and its text
-- without a gap being left there.
theorem framed_harmless (u output content : Chars) (blank dropped : Bool) (before : Harmless excuse (u ++ output))
    (inside : Harmless excuse (u ++ output ++ content)) :
    Harmless excuse (u ++ join output (framed blank dropped output content)) := by
  have parts := flanking_whole content
  obtain ⟨first, last⟩ := flanking_gaps content
  apply harmless_join
  unfold framed
  generalize Whitespace.flanking content = split at parts first last ⊢
  obtain ⟨leading, core, trailing⟩ := split
  simp only at parts first last ⊢
  subst parts
  have kept : Harmless excuse
      (u ++ output ++ (leading ++ ((if blank then [] else core) ++ if dropped then [] else trailing))) := by
    cases blank with
    | true =>
        refine harmless_gaps _ ?_ _ before
        intro c member
        simp only [if_true, List.nil_append, List.mem_append] at member
        rcases member with here | there
        · exact first c here
        · split at there
          · cases there
          · exact last c there
    | false =>
        cases dropped with
        | true =>
            refine harmless_shorter trailing last _ ?_
            simpa using inside
        | false => simpa using inside
  rw [← List.append_assoc, List.append_assoc (if endsInGap output then [] else leading)]
  split
  · rename_i ends
    rw [ends_in_gap] at ends
    cases shape : output.getLast? with
    | none => simp [shape] at ends
    | some g =>
        have gap : Text.isGap g := by simpa [shape] using ends
        obtain ⟨body, rfl⟩ := List.getLast?_eq_some_iff.mp shape
        have narrow := harmless_narrower leading first (u ++ body) g
          ((if blank then [] else core) ++ if dropped then [] else trailing) gap (by simpa using kept)
        simpa using narrow
  · exact kept

def preformattedRule : Rule :=
  { name := "preformatted", filter := .holds fun site _ => CommonMark.isPreformatted site,
    replacement := Block.preformatted }

def imageRule : Rule := { name := "image", filter := .tags ["img"], replacement := Link.image }

theorem uncoded_block (m : Mark) (a : Attrs) (ks : List Marked) (uncoded : ks.any (Node.isNamed "code") = false) :
    Code.isBlock (.element m "pre" a ks) = false := by
  have other (n : Marked) (listed : n ∈ Node.significant ks) : n.isNamed "code" = false := by
    have inside : n ∈ ks := (List.filter_sublist (p := _)).mem listed
    simpa using List.any_eq_false.mp uncoded n inside
  unfold Code.isBlock
  rw [Node.kids]
  cases shape : Node.significant ks with
  | nil => simp
  | cons child rest =>
      cases rest with
      | nil => simp [other child (by simp [shape])]
      | cons => simp

theorem preformatted_joined (o : Options) (s : State) (outer : List Open) (isBlock : Bool) (output : Chars) (m : Mark)
    (a : Attrs) (ks : List Marked) (path : List Step) (uncoded : ks.any (Node.isNamed "code") = false) (content : Chars)
    (rendered : nodes {} o (⟨output, isBlock⟩ :: outer) true (.element m "pre" a) path [] [] ks
      (opened o ⟨.element m "pre" a ks, path⟩ s) = .ok content (opened o ⟨.element m "pre" a ks, path⟩ s)) :
    node {} o outer isBlock path output (.element m "pre" a ks) s =
      .ok (join output (if m.blank then ['\n', '\n'] else Block.apart (core content))) s := by
  have plain := uncoded_block m a ks uncoded
  have found : ({} : RuleTable).find ⟨.element m "pre" a ks, path⟩ o m.blank =
      .ok (if m.blank then Rule.blank else preformattedRule) := by
    cases m.blank with
    | true => rfl
    | false =>
        simp [RuleTable.find, RuleTable.inOrder, RuleTable.firstClaim, CommonMark.rules, CommonMark.headingTags,
          Rule.claims, Filter.holds, Site.tag, Node.tag, CommonMark.isCodeBlock, CommonMark.isPreformatted,
          Node.isNamed, plain, preformattedRule]
  refine container_written {} o outer isBlock path output m "pre" a ks _ s _ content _ (by decide) found ?_ ?_ rendered
    ?_ (leave_opened o _ s)
  · cases m.blank <;> rfl
  · rw [enter_eq]
    rfl
  · cases m.blank <;> rfl

theorem prose_site (o : Options) (n : Marked) (path : List Step) (named : n.isNamed "code" = false)
    (prose : ∀ step ∈ path, step.head.tag ≠ "code") : (o.preformattedCode && Site.isCode ⟨n, path⟩) = false := by
  have above : Site.hasAncestor ["code"] ⟨n, path⟩ = false := by
    simpa [Site.hasAncestor] using prose
  rw [Site.isCode, above, named, Bool.or_false, Bool.and_false]

theorem image_found (o : Options) (m : Mark) (a : Attrs) (ks : List Marked) (path : List Step) :
    ({} : RuleTable).find ⟨.element m "img" a ks, path⟩ o false = .ok imageRule := by
  simp [RuleTable.find, RuleTable.inOrder, RuleTable.firstClaim, CommonMark.rules, CommonMark.headingTags,
    Rule.claims, Filter.holds, Site.tag, Node.tag, CommonMark.isCodeBlock, Code.isBlock, CommonMark.isPreformatted,
    Inline.isCode, Link.isLink, Node.isNamed, imageRule]

-- Whichever rule claims a silent element, it writes nothing for it.
theorem silent_found (o : Options) (m : Mark) (t : String) (a : Attrs) (path : List Step) (silent : Silent t a) :
    ∃ rule, ({} : RuleTable).find ⟨.element m t a [], path⟩ o m.blank = .ok rule ∧
      ∀ s, rule.replacement [] ⟨.element m t a [], path⟩ o s = .ok [] s := by
  by_cases image : m.blank = false ∧ t = "img"
  · obtain ⟨solid, rfl⟩ := image
    refine ⟨imageRule, solid ▸ image_found o m a [] path, fun s => ?_⟩
    have source : (Node.element m "img" a [] : Marked).attr "src" = [] := silent.sourceless rfl
    simp only [imageRule, Link.image, source]
    rfl
  · refine ⟨if m.blank then Rule.blank else Rule.default, ?_, fun s => ?_⟩
    · cases blank : m.blank with
      | true => rfl
      | false =>
          have unlisted := silent_unlisted t a silent fun same => image ⟨blank, same⟩
          have unclaimed := unlisted_unclaimed o m t a [] path unlisted
            (fun anchor => absurd anchor (silent_other t a silent "a" (by decide)))
          simp [RuleTable.find, unclaimed]
    · rw [inline_replacement o s m t a [] path silent.inline, ite_self]

theorem replace_empty (rule : Rule) (site : Site) (o : Options) (s : State) (output : Chars)
    (level : site.node.isBlock = false) (prose : (o.preformattedCode && site.isCode) = false)
    (written : rule.replacement [] site o s = .ok [] s) : replace rule site o [] output s = .ok [] s := by
  rw [replace_inner rule site o level prose [] output [] s s written]
  have nothing : Whitespace.flanking [] = ([], [], []) := rfl
  simp only [nothing, ite_self, List.append_nil]

theorem silent_written (o : Options) (s : State) (outer : List Open) (isBlock : Bool) (output : Chars) (m : Mark)
    (t : String) (a : Attrs) (path : List Step) (silent : Silent t a) (prose : ∀ step ∈ path, step.head.tag ≠ "code") :
    node {} o outer isBlock path output (.element m t a []) s = .ok (join output []) s := by
  have uncoded := silent_other t a silent "code" (by decide)
  have passed := inline_passed o m t a [] path s silent.inline
  rw [passed.coded uncoded] at passed
  obtain ⟨rule, found, written⟩ := silent_found o m t a path silent
  have rendered : contentText {} o (⟨output, isBlock⟩ :: outer) m t a path [] rule s = .ok [] s := by
    unfold contentText
    split <;> rfl
  have replaced := replace_empty rule ⟨.element m t a [], path⟩ o s output silent.inline
    (prose_site o _ path (by simpa [Node.isNamed] using uncoded) prose) (written s)
  rw [node_element, element_found {} o outer isBlock path output m t a [] rule found]
  simp only [bind, EStateM.bind, passed.entered, rendered, replaced, passed.left, pure, EStateM.pure]

theorem path_prose (head : Head) (path : List Step) (before after : List Marked) (n : Marked)
    (named : head.tag ≠ "code") (prose : ∀ step ∈ path, step.head.tag ≠ "code") :
    ∀ step ∈ Site.pathTo head path before after n, step.head.tag ≠ "code" := by
  unfold Site.pathTo
  split
  · exact List.forall_mem_cons.mpr ⟨named, prose⟩
  · simp

theorem block_harmless (outer : List Open) (isBlock : Bool) (output content : Chars) (blank : Bool)
    (before : Harmless excuse (reach (⟨output, isBlock⟩ :: outer))) (harmless : Harmless excuse content) :
    Harmless excuse
      (reach (⟨join output (if blank then ['\n', '\n'] else Block.apart content), isBlock⟩ :: outer)) := by
  refine harmless_join _ output _ ?_
  rw [← List.append_assoc]
  cases blank with
  | true => exact (harmless_breaks _ [] 1).mpr ⟨before, harmless_nil⟩
  | false => exact harmless_apart _ content before harmless

structure Flowing (o : Options) (kept : Bool) (s : State) : Prop where
  uncoded : s.inCode = false
  deep : 0 ≤ s.preformattedDepth
  kept : (o.preformattedCode && s.inPreformatted) = kept

theorem text_read (o : Options) (kept : Bool) (s : State) (flowing : Flowing o kept s) (m : Mark) (data : Chars) :
    readTexts o.preformattedCode kept (.text m data) = [s.textOf o m data] := by
  rw [readTexts, State.textOf, flowing.uncoded, Bool.or_false, flowing.kept]
  cases m.shown <;> rfl

theorem preformatted_flowing (o : Options) (kept : Bool) (s : State) (flowing : Flowing o kept s) (m : Mark) (a : Attrs)
    (ks : List Marked) (path : List Step) :
    Flowing o (kept || Whitespace.isKept o.preformattedCode "pre") (opened o ⟨.element m "pre" a ks, path⟩ s) := by
  have deep := flowing.deep
  have change : opened o ⟨.element m "pre" a ks, path⟩ s =
      if o.preformattedCode then { s with preformattedDepth := s.preformattedDepth + 1 } else s := rfl
  rw [change]
  cases keep : o.preformattedCode with
  | false =>
      rw [if_neg Bool.false_ne_true]
      have same := flowing.kept
      rw [keep] at same
      refine ⟨flowing.uncoded, deep, ?_⟩
      rw [keep, ← same]
      rfl
  | true =>
      rw [if_pos rfl]
      have inside : ({ s with preformattedDepth := s.preformattedDepth + 1 } : State).inPreformatted = true := by
        simp only [State.inPreformatted, decide_eq_true_eq]
        omega
      refine ⟨flowing.uncoded, by simp only; omega, ?_⟩
      rw [keep, inside]
      simp [Whitespace.isKept]

theorem unkept_tag (keep kept : Bool) (t : String) (pre : t ≠ "pre") (code : t ≠ "code") :
    (kept || Whitespace.isKept keep t) = kept := by
  simp [Whitespace.isKept, pre, code]

mutual

theorem node_harmless (o : Options) (kept : Bool) (s : State) (flowing : Flowing o kept s) (outer : List Open)
    (isBlock : Bool) (path : List Step) (prose : ∀ step ∈ path, step.head.tag ≠ "code") (output : Chars) (n : Marked)
    (bland : Bland n) (excused : ∀ text ∈ readTexts o.preformattedCode kept n, Indented text → excuse)
    (before : Harmless excuse (reach (⟨output, isBlock⟩ :: outer))) :
    ∃ out, node {} o outer isBlock path output n s = .ok out s ∧ Harmless excuse (reach (⟨out, isBlock⟩ :: outer)) := by
  cases n with
  | text m data =>
      rw [text_read o kept s flowing, List.forall_mem_singleton] at excused
      obtain ⟨harmless, apart⟩ := text_output_harmless o s flowing.uncoded (⟨output, isBlock⟩ :: outer) m data excused
      refine ⟨_, rfl, harmless_join _ output _ ?_⟩
      rw [← List.append_assoc]
      exact harmless_append _ _ before harmless apart
  | comment m data => exact ⟨output, rfl, before⟩
  | document m ks => exact bland.elim
  | element m t a ks =>
      rw [readTexts] at excused
      obtain ⟨rfl | ⟨rfl, uncoded⟩ | plain | ⟨silent, rfl⟩, below⟩ := bland
      · rw [unkept_tag _ _ "p" (by decide) (by decide)] at excused
        obtain ⟨content, rendered, harmless⟩ := nodes_harmless o kept s flowing (⟨output, isBlock⟩ :: outer) true
          (.element m "p" a) (by simp [Head.tag]) path prose [] [] ks below excused harmless_nil
        exact ⟨_, paragraph_joined o s outer isBlock output m a ks path content rendered,
          block_harmless outer isBlock output content m.blank before harmless⟩
      · obtain ⟨content, rendered, harmless⟩ := nodes_harmless o _ _
          (preformatted_flowing o kept s flowing m a ks path) (⟨output, isBlock⟩ :: outer) true (.element m "pre" a)
          (by simp [Head.tag]) path prose [] [] ks below excused harmless_nil
        exact ⟨_, preformatted_joined o s outer isBlock output m a ks path uncoded content rendered,
          block_harmless outer isBlock output _ m.blank before (harmless_core content harmless)⟩
      · have code := plain_other t a plain "code" (by decide)
        rw [unkept_tag _ _ t (plain_other t a plain "pre" (by decide)) code] at excused
        have start : Harmless excuse (reach (⟨[], isBlockTag t⟩ :: ⟨output, isBlock⟩ :: outer)) := by
          rw [reach, plain.inline, if_neg Bool.false_ne_true, List.append_nil]
          exact before
        obtain ⟨content, rendered, harmless⟩ := nodes_harmless o kept s flowing (⟨output, isBlock⟩ :: outer)
          (isBlockTag t) (.element m t a) code path prose [] [] ks below excused start
        rw [reach, plain.inline, if_neg Bool.false_ne_true] at harmless
        obtain ⟨dropped, written, -⟩ := inline_written o outer isBlock path output m t a ks s s plain.inline
          (prose_site o _ path (by simpa [Node.isNamed] using code) prose) (inline_found o m t a ks path fun _ => plain)
          (plain_passed o m t a ks path s plain) content rendered
        exact ⟨_, written, framed_harmless _ output content m.blank dropped before harmless⟩
      · refine ⟨_, silent_written o s outer isBlock output m t a path silent prose, ?_⟩
        exact harmless_join _ output [] (by rwa [List.append_nil])

theorem nodes_harmless (o : Options) (kept : Bool) (s : State) (flowing : Flowing o kept s) (outer : List Open)
    (isBlock : Bool) (head : Head) (named : head.tag ≠ "code") (path : List Step)
    (prose : ∀ step ∈ path, step.head.tag ≠ "code") (before : List Marked) (output : Chars) (ks : List Marked)
    (bland : BlandAll ks) (excused : ∀ text ∈ readTextsOf o.preformattedCode kept ks, Indented text → excuse)
    (harmless : Harmless excuse (reach (⟨output, isBlock⟩ :: outer))) :
    ∃ out, nodes {} o outer isBlock head path before output ks s = .ok out s ∧
      Harmless excuse (reach (⟨out, isBlock⟩ :: outer)) := by
  cases ks with
  | nil => exact ⟨output, rfl, harmless⟩
  | cons n rest =>
      rw [readTextsOf] at excused
      obtain ⟨out, written, between⟩ := node_harmless o kept s flowing outer isBlock
        (Site.pathTo head path before rest n) (path_prose head path before rest n named prose) output n bland.1
        (fun text member => excused text (List.mem_append_left _ member)) harmless
      obtain ⟨final, finished, after⟩ := nodes_harmless o kept s flowing outer isBlock head named path prose
        (n :: before) out rest bland.2 (fun text member => excused text (List.mem_append_right _ member)) between
      refine ⟨final, ?_, after⟩
      rw [nodes, bind_of_ok _ _ _ _ _ written, finished]

end

end

end Render

end Downmark
