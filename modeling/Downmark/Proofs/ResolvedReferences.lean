import Downmark.Proofs.LinkParagraphs
import Downmark.Proofs.NumberedDocument
import Downmark.Proofs.ReadBack
/-!
Paragraphs of text and links that refer to their targets by labels. Main statement: read from left to right, such a
paragraph has one reference for each link, and its label leads to the target of the link, unless a reference without
a label is followed by a bracket, or by a colon at the start of the line.
-/

set_option autoImplicit false

namespace Downmark.Render

open Node Reference Whitespace

-- What a tree is converted to without the definitions, and the collector that has them.
def citedText (o : Options) (tree : Tree) : Except Failure (Chars × Collector) :=
  match root {} o (Site.ofTree tree) (logged tree) with
  | .ok output s => .ok (trimmed output, s.references)
  | .error failure _ => .error failure

-- A text that cites the targets, with the labels that a collector gave for the texts of the references.
structure Citing (o : Options) (targets : List Target) (cites : List Citation) (ending text : Chars) (c : Collector) :
    Prop where
  text : text = layout o.labelStyle cites ending
  quiet : ∀ cited ∈ cites, cited.Quiet
  ending : Muted ending
  filed : Filed {} cites c
  targets : cites.map Citation.target = targets

theorem trimmed_citing (o : Options) (targets : List Target) (cites : List Citation) (ending content : Chars)
    (s : State) (cited : Cites o {} cites ending content s) (named : cites.map Citation.target = targets) :
    ∃ rest, Citing o targets cites rest (trimmed (join [] (Block.apart content))) s.references := by
  have whole := cites_spaced o {} Collector.new_legible cites ending content s cited
  refine ⟨Text.trimEnd Text.isBlank ending, ?_, cited.quiet, ?_, cited.filed, named⟩
  · rw [trimmed_paragraph content whole, cited.output, layout_trimmed]
  · obtain ⟨run, same, blank⟩ := Text.trim_end_run Text.isBlank ending
    exact muted_cut _ run (same ▸ cited.ending) fun c begins => blank c (List.mem_of_mem_head? begins)

section

variable (o : Options) (referenced : o.linkStyle = .referenced) (short : o.labelStyle ≠ .full)

include referenced short

theorem paragraph_citing (path : List Step) (m : Mark) (a : Attrs) (ks : List Marked)
    (passages : ks.all isPassage = true) (noted : Noted ks) (flagged : Flagged (.element m "p" a ks)) (s : State)
    (uncoded : s.inCode = false) (flowing : s.inPreformatted = false) (unasked : s.references = {}) :
    ∃ cites ending out u, node {} o [] true path [] (.element m "p" a ks) s = .ok out u ∧
      Citing o (targetsOf ks) cites ending (trimmed out) u.references := by
  have fresh : Cites o {} [] [] [] s := ⟨rfl, by simp, .nil, unasked ▸ .none, uncoded, flowing⟩
  obtain ⟨cites, ending, content, u, rendered, cited, named⟩ := passages_cite o referenced short {}
    Collector.new_legible [⟨[], true⟩] true (.element m "p" a) path [] [] ks passages noted flagged.2 [] [] s fresh
  rw [List.nil_append] at cited
  have joined := paragraph_joined o s [] true [] m a ks path content rendered
  cases blank : m.blank with
  | false =>
      rw [blank, if_neg Bool.false_ne_true] at joined
      obtain ⟨rest, citing⟩ := trimmed_citing o (targetsOf ks) cites ending content u cited named
      exact ⟨cites, rest, _, u, joined, citing⟩
  | true =>
      -- There is no link in a blank paragraph.
      have nothing := blank_targets_of ks (flagged_hollow m "p" a ks flagged blank)
      rw [nothing, List.map_eq_nil_iff] at named
      subst named
      rw [blank, if_pos rfl] at joined
      exact ⟨[], [], _, u, joined, rfl, by simp, .nil, cited.filed, nothing.symm⟩

theorem prepared_citing (path : List Step) (n : Marked) (a : Attrs) (ks : List Tree)
    (bared : bare n = .element () "p" a ks) (passages : ks.all isPassage = true) (noted : Noted [n])
    (flagged : Flagged n) (s : State) (uncoded : s.inCode = false) (flowing : s.inPreformatted = false)
    (unasked : s.references = {}) :
    ∃ cites ending out u, node {} o [] true path [] n s = .ok out u ∧
      Citing o (targetsOf ks) cites ending (trimmed out) u.references := by
  obtain ⟨m, ks', rfl, below⟩ := bare_element_shape n "p" a ks bared
  have marked : ks'.all isPassage = true := by
    rw [← passages, ← below, bareAll, passages_marks]
  rw [← below, bare_all_targets]
  exact paragraph_citing o referenced short path m a ks' marked ((noted_element m "p" a ks').mp noted) flagged s uncoded
    flowing unasked

end

theorem open_noted (o : Options) (tree : Tree) : Noted [prepare o (unmark tree)] :=
  prepare_noted o _ (fresh_noted tree {} rfl)

-- What is rendered alone is prepared with all that is above it.
theorem single_prepared (o : Options) (tree top : Tree) (head : Head) (path : List Step) (ks : List Marked)
    (rendered : RenderedTop o tree top head path ks) (single : Tree) (listed : bareAll ks = [single]) :
    ∃ n, ks = [n] ∧ bare n = single ∧ Noted [n] ∧ Flagged n := by
  obtain ⟨n, none, rfl, bared, nothing⟩ := bare_cons_shape _ _ _ listed
  obtain rfl : none = [] := by
    cases none with
    | nil => rfl
    | cons => cases nothing
  have noted := open_noted o top
  have flagged := prepared_flags o (unmark top)
  rw [rendered.shape] at noted flagged
  refine ⟨n, rfl, bared, ?_⟩
  cases head with
  | element m t a => exact ⟨(noted_element m t a [n]).mp noted, flagged.2.1⟩
  | document m => exact ⟨(noted_document m [n]).mp noted, flagged.1⟩

theorem root_citing (o : Options) (referenced : o.linkStyle = .referenced) (short : o.labelStyle ≠ .full) (tree : Tree)
    (a : Attrs) (ks : List Tree) (paragraph : renderedBelow tree = [.element () "p" a ks])
    (passages : ks.all isPassage = true) :
    ∃ cites ending out u, root {} o (Site.ofTree tree) (logged tree) = .ok out u ∧
      Citing o (targetsOf ks) cites ending (trimmed out) u.references := by
  cases tree with
  | text | comment => cases paragraph
  | element m t a' ks' =>
      cases paragraph
      exact prepared_citing o referenced short [] _ a ks ((prepare_bare o _).trans (bare_marked _ _)) passages
        (open_noted o _) (prepared_flags o _) _ rfl rfl rfl
  | document m below =>
      obtain ⟨top, head, path, ks', rendered⟩ := document_top o m below
      obtain ⟨n, rfl, bared, noted, flagged⟩ := single_prepared o _ top head path ks' rendered _
        (rendered.below.trans paragraph)
      obtain ⟨cites, ending, out, u, written, citing⟩ := prepared_citing o referenced short
        (Site.pathTo head path [] [] n) n a ks bared passages noted flagged (logged (.document m below)) rfl rfl rfl
      refine ⟨cites, ending, out, u, ?_, citing⟩
      rw [rendered.rendered, nodes]
      exact bind_of_ok _ _ _ u out written

theorem citing_written (o : Options) (targets : List Target) (cites : List Citation) (ending text : Chars)
    (c : Collector) (citing : Citing o targets cites ending text c) (some : c.toList ≠ []) : text ≠ [] := by
  cases cites with
  | nil =>
      rw [filed_none {} c [] citing.filed rfl] at some
      exact absurd rfl some
  | cons cited rest =>
      rw [citing.text, layout]
      simp

theorem references_resolve (o : Options) (referenced : o.linkStyle = .referenced) (short : o.labelStyle ≠ .full)
    (tree : Tree) (a : Attrs) (ks : List Tree) (paragraph : renderedBelow tree = [.element () "p" a ks])
    (passages : ks.all isPassage = true) :
    ∃ cites ending text c, citedText o tree = .ok (text, c) ∧
      conversion o tree = .ok (text ++ definitionBlock c.toList) ∧ Citing o (targetsOf ks) cites ending text c ∧
      (o.labelStyle = .collapsed ∨ Clear o.labelStyle true cites ending →
        (references true text).map (resolve c.toList) = (targetsOf ks).map some) := by
  obtain ⟨cites, ending, out, u, written, citing⟩ := root_citing o referenced short tree a ks paragraph passages
  obtain ⟨t, finished⟩ := finish_defined out u fun some => citing_written o _ cites ending _ _ citing some
  refine ⟨cites, ending, trimmed out, u.references, ?_, ?_, citing, fun clear => ?_⟩
  · rw [citedText, written]
  · have noted : site {} o (Site.ofTree tree) {} = (root {} o (Site.ofTree tree) >>= finish) (logged tree) := rfl
    rw [conversion, answer, noted, bind_of_ok _ _ _ _ out written, finished]
  · have apart : Clear o.labelStyle true cites ending := by
      rcases clear with collapsed | apart
      · rw [collapsed]
        exact collapsed_clear true cites ending
      · exact apart
    have texts : ∀ cited ∈ cites, Readable cited.text := fun cited member => (citing.quiet cited member).text
    obtain ⟨-, known⟩ := filed_kept {} u.references cites citing.filed Collector.new_legible texts
    have labels := fun cited member => (known cited member).1
    rw [citing.text, references_layout o.labelStyle true cites ending citing.quiet labels citing.ending apart,
      filed_resolve {} u.references cites citing.filed Collector.new_legible texts, citing.targets]

-- The label of the second link is changed, since its text is the label of the first one but for the case.
def alikeLinks : List Tree :=
  [.element () "a" [("href", ['x'])] [.text () ['a']], .element () "a" [("href", ['y'])] [.text () ['A']]]

def linkBehindText : List Tree :=
  [.text () ['b', ' '], .element () "a" [("href", ['x'])] [.text () ['a']]]

theorem links_resolved :
    (∃ text c, citedText { linkStyle := .referenced, labelStyle := .collapsed } (.element () "p" [] alikeLinks) =
        .ok (text, c) ∧
      (references true text).map (resolve c.toList) = [some (['x'], none), some (['y'], none)]) ∧
    ∃ text c, citedText { linkStyle := .referenced, labelStyle := .shortcut } (.element () "p" [] linkBehindText) =
        .ok (text, c) ∧
      (references true text).map (resolve c.toList) = [some (['x'], none)] := by
  constructor
  · obtain ⟨cites, ending, text, c, written, -, -, resolves⟩ := references_resolve
      { linkStyle := .referenced, labelStyle := .collapsed } rfl (by decide) (.element () "p" [] alikeLinks) []
      alikeLinks rfl rfl
    exact ⟨text, c, written, resolves (.inl rfl)⟩
  · obtain ⟨cites, ending, text, c, written, -, citing, resolves⟩ := references_resolve
      { linkStyle := .referenced, labelStyle := .shortcut } rfl (by decide) (.element () "p" [] linkBehindText) []
      linkBehindText rfl rfl
    have evaluated : (citedText { linkStyle := .referenced, labelStyle := .shortcut }
      (.element () "p" [] linkBehindText)).map Prod.fst = .ok "b [a]".toList := rfl
    rw [written] at evaluated
    obtain rfl : text = "b [a]".toList := Except.ok.inj evaluated
    have whole := citing.text
    obtain ⟨cited, none, rfl, -, single⟩ := List.map_eq_cons_iff.mp citing.targets
    obtain rfl := List.map_eq_nil_iff.mp single
    have worded : cited.words ≠ [] := by
      intro begins
      rw [layout, begins] at whole
      exact absurd (List.cons.inj whole).1 (by decide)
    have clear := worded_clear .shortcut true [cited] ending citing.quiet (by simpa using worded) citing.ending
    exact ⟨_, c, written, resolves (.inr clear)⟩

def adjacentLinks : List Tree :=
  [.element () "a" [("href", ['x'])] [.text () ['a']], .element () "a" [("href", ['y'])] [.text () ['b']]]

theorem adjacent_links_confused : ¬ ∀ (o : Options) (tree : Tree) (a : Attrs) (ks : List Tree),
    o.linkStyle = .referenced → o.labelStyle ≠ .full → renderedBelow tree = [.element () "p" a ks] →
    ks.all isPassage = true →
    ∃ text c, citedText o tree = .ok (text, c) ∧
      (references true text).map (resolve c.toList) = (targetsOf ks).map some := by
  intro always
  obtain ⟨text, c, written, resolved⟩ := always { linkStyle := .referenced, labelStyle := .shortcut }
    (.element () "p" [] adjacentLinks) [] adjacentLinks rfl (by decide) rfl rfl
  have evaluated : (citedText { linkStyle := .referenced, labelStyle := .shortcut }
    (.element () "p" [] adjacentLinks)).map Prod.fst = .ok "[a][b]".toList := rfl
  rw [written] at evaluated
  obtain rfl : text = "[a][b]".toList := Except.ok.inj evaluated
  have read : references true "[a][b]".toList = [['b']] := by
    have first := references_bracket true "a][b]".toList ['b'] [] (fun _ => rfl) rfl
    rwa [references_words false [] .nil] at first
  have counted := congrArg List.length resolved
  rw [read, List.length_map, List.length_map] at counted
  exact absurd counted (by decide)

end Downmark.Render
