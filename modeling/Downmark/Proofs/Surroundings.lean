import Downmark.Proofs.Steady
/-!
What surrounds a node and reaches its text: the nearest container, the siblings there, and what is already
written on its line. Containers further out and lines that are finished do not. Main statement: a block
element gives the same text wherever it stands, save that a list looks whether it stands in an item.
-/

set_option autoImplicit false

namespace Downmark

-- The same container is nearest, with the same siblings.
def Near (path path' : List Step) : Prop := path.head? = path'.head?

theorem near_cases (path path' : List Step) (near : Near path path') :
    path = path' ∨ ∃ step outer outer', path = step :: outer ∧ path' = step :: outer' := by
  cases path with
  | nil =>
      cases path' with
      | nil => exact .inl rfl
      | cons step outer' => cases near
  | cons step outer =>
      cases path' with
      | nil => cases near
      | cons step' outer' =>
          cases near
          exact .inr ⟨step, outer, outer', rfl, rfl⟩

-- A rule that looks no further than the nearest container.
structure Rule.LooksNear (rule : Rule) : Prop where
  claims : ∀ n path path' o, Near path path' → rule.claims ⟨n, path⟩ o = rule.claims ⟨n, path'⟩ o
  replacement : ∀ content n path path' o, Near path path' →
    rule.replacement content ⟨n, path⟩ o = rule.replacement content ⟨n, path'⟩ o

section

variable (n : Marked) (path path' : List Step) (near : Near path path')

include near

theorem of_item_near (o : Options) : ListMarker.ofItem o ⟨n, path⟩ = ListMarker.ofItem o ⟨n, path'⟩ := by
  rcases near_cases path path' near with rfl | ⟨⟨head, before, after, listed⟩, outer, outer', rfl, rfl⟩
  · rfl
  · unfold ListMarker.ofItem
    cases head with
    | document m => rfl
    | element m t a => by_cases numbered : t = "ol" <;> simp [numbered]

theorem marker_near (o : Options) : Block.markerOf o ⟨n, path⟩ = Block.markerOf o ⟨n, path'⟩ := by
  unfold Block.markerOf
  rw [of_item_near n path path' near]

theorem is_code_near : Inline.isCode ⟨n, path⟩ = Inline.isCode ⟨n, path'⟩ := by
  rcases near_cases path path' near with rfl | ⟨⟨head, before, after, listed⟩, outer, outer', rfl, rfl⟩
  · rfl
  · cases head <;> rfl

theorem following_near : Site.following ⟨n, path⟩ = Site.following ⟨n, path'⟩ := by
  rcases near_cases path path' near with rfl | ⟨step, outer, outer', rfl, rfl⟩
  · rfl
  · rfl

theorem endless_near : Render.needsEndlessMarker ⟨n, path⟩ = Render.needsEndlessMarker ⟨n, path'⟩ := by
  rcases near_cases path path' near with rfl | ⟨step, outer, outer', rfl, rfl⟩
  · rfl
  · rfl

theorem list_near (content : Chars) (o : Options) :
    Block.list content ⟨n, path⟩ o = Block.list content ⟨n, path'⟩ o := by
  rcases near_cases path path' near with rfl | ⟨step, outer, outer', rfl, rfl⟩
  · rfl
  · rfl

theorem list_item_near (content : Chars) (o : Options) :
    Block.listItem content ⟨n, path⟩ o = Block.listItem content ⟨n, path'⟩ o := by
  have marker := marker_near n path path' near o
  have follows (s : State) : s.hasFollowingContent o ⟨n, path⟩ = s.hasFollowingContent o ⟨n, path'⟩ := by
    rw [State.hasFollowingContent, State.hasFollowingContent, following_near n path path' near]
  simp only [Block.listItem, Replacement.ofFunction, marker, follows]

end

structure Rule.LooksNowhere (rule : Rule) : Prop where
  claims : ∀ n path path' o, rule.claims ⟨n, path⟩ o = rule.claims ⟨n, path'⟩ o
  replacement : ∀ content n path path' o,
    rule.replacement content ⟨n, path⟩ o = rule.replacement content ⟨n, path'⟩ o

theorem looks_near_nowhere (rule : Rule) (nowhere : rule.LooksNowhere) : rule.LooksNear :=
  ⟨fun n path path' o _ => nowhere.claims n path path' o,
    fun content n path path' o _ => nowhere.replacement content n path path' o⟩

-- Lists look for the item around them, items for what follows them, and code for the block around it.
inductive Rule.Looks (rule : Rule) : Prop where
  | nowhere (nowhere : rule.LooksNowhere)
  | list (claims : rule.filter = .tags ["ul", "ol"]) (replaces : rule.replacement = Block.list)
  | item (claims : rule.filter = .tags ["li"]) (replaces : rule.replacement = Block.listItem)
  | code (claims : rule.filter = .holds fun site _ => Inline.isCode site) (replaces : rule.replacement = Inline.code)

theorem default_table_looks : ∀ rule ∈ ({} : RuleTable).inOrder, rule.Looks := by
  have listed : ∀ rule ∈ CommonMark.rules, rule.Looks := by
    simp only [CommonMark.rules, List.forall_mem_cons]
    refine ⟨?_, ?_, ?_, ?_, .list rfl rfl, .item rfl rfl, ?_, ?_, ?_, ?_, ?_, ?_, ?_, ?_, .code rfl rfl, ?_, by simp⟩
    all_goals exact .nowhere ⟨fun _ _ _ _ => rfl, fun _ _ _ _ _ => rfl⟩
  intro rule member
  rcases List.mem_append.mp member with builtin | removed
  · exact listed rule (by simpa using builtin)
  · obtain ⟨tag, -, rfl⟩ := List.mem_map.mp removed
    exact .nowhere ⟨fun _ _ _ _ => rfl, fun _ _ _ _ _ => rfl⟩

theorem default_table_near (rule : Rule) (member : rule ∈ ({} : RuleTable).inOrder) : rule.LooksNear := by
  have named (names : List String) (claims : rule.filter = .tags names) (n : Marked) (path path' : List Step)
      (o : Options) : rule.claims ⟨n, path⟩ o = rule.claims ⟨n, path'⟩ o := by
    rw [Rule.claims, Rule.claims, claims]
    rfl
  cases default_table_looks rule member with
  | nowhere nowhere => exact looks_near_nowhere rule nowhere
  | list claims replaces =>
      refine ⟨fun n path path' o _ => named _ claims n path path' o, fun content n path path' o near => ?_⟩
      rw [replaces, list_near n path path' near]
  | item claims replaces =>
      refine ⟨fun n path path' o _ => named _ claims n path path' o, fun content n path path' o near => ?_⟩
      rw [replaces, list_item_near n path path' near]
  | code claims replaces =>
      refine ⟨fun n path path' o near => ?_, fun content n path path' o _ => ?_⟩
      · rw [Rule.claims, Rule.claims, claims]
        simp only [Filter.holds, is_code_near n path path' near]
      · rw [replaces]
        rfl

namespace RuleTable

theorem first_claim_same (rules : List Rule) (site site' : Site) (o : Options)
    (same : ∀ rule ∈ rules, rule.claims site o = rule.claims site' o) :
    firstClaim site o rules = firstClaim site' o rules := by
  induction rules with
  | nil => rfl
  | cons first rest ih =>
      rw [List.forall_mem_cons] at same
      rw [firstClaim, firstClaim, same.1, ih same.2]

theorem find_same (table : RuleTable) (site site' : Site) (o : Options) (blank : Bool)
    (same : ∀ rule ∈ table.inOrder, rule.claims site o = rule.claims site' o) :
    table.find site o blank = table.find site' o blank := by
  rw [find, find, first_claim_same table.inOrder site site' o same]

theorem find_looks_near (table : RuleTable) (near : ∀ rule ∈ table.inOrder, rule.LooksNear) (site : Site)
    (o : Options) (blank : Bool) (rule : Rule) (found : table.find site o blank = .ok rule) : rule.LooksNear := by
  rcases find_cases table site o blank rule found with ⟨-, rfl⟩ | ⟨-, listed, -⟩ | ⟨-, rfl, -⟩
  · exact looks_near_nowhere _ ⟨fun _ _ _ _ => rfl, fun _ _ _ _ _ => rfl⟩
  · exact near rule listed
  · exact looks_near_nowhere _ ⟨fun _ _ _ _ => rfl, fun _ _ _ _ _ => rfl⟩

end RuleTable

namespace Render

section

variable (o : Options) (n : Marked) (path path' : List Step)

theorem enter_near (near : Near path path') : enter o ⟨n, path⟩ = enter o ⟨n, path'⟩ := by
  funext s
  rw [enter_eq, enter_eq, endless_near n path path' near]
  simp only [opened, marker_near n path path' near, Site.tag]

theorem leave_anywhere : leave o ⟨n, path⟩ = leave o ⟨n, path'⟩ := rfl

theorem replace_near (rule : Rule) (looks : rule.LooksNear) (flowing : o.preformattedCode = false)
    (near : Near path path') (content preceding : Chars) :
    replace rule ⟨n, path⟩ o content preceding = replace rule ⟨n, path'⟩ o content preceding := by
  have spaces (s : State) : s.nextStartsWithSpace o ⟨n, path⟩ = s.nextStartsWithSpace o ⟨n, path'⟩ := by
    rw [State.nextStartsWithSpace, State.nextStartsWithSpace, following_near n path path' near]
  have written (core : Chars) := looks.replacement core n path path' o near
  simp only [replace, flowing, Bool.false_and, spaces, written]

end

-- Nothing outside of a block element, or of a node whose line the outer elements share, stands on its line.
def OneLine (isBlock : Bool) (outer outer' : List Open) : Prop :=
  isBlock = true ∨ lineSoFar outer = lineSoFar outer'

theorem line_same (isBlock : Bool) (outer outer' : List Open) (level : OneLine isBlock outer outer')
    (output : Chars) : lineSoFar (⟨output, isBlock⟩ :: outer) = lineSoFar (⟨output, isBlock⟩ :: outer') := by
  rcases level with rfl | same
  · simp [lineSoFar]
  · rw [lineSoFar, lineSoFar, same]

theorem element_near (table : RuleTable) (near : ∀ rule ∈ table.inOrder, rule.LooksNear) (o : Options)
    (flowing : o.preformattedCode = false) (outer outer' : List Open) (isBlock : Bool) (path path' : List Step)
    (output : Chars) (m : Mark) (t : String) (a : Attrs) (ks : List Marked) (beside : Near path path')
    (below : nodes table o (⟨output, isBlock⟩ :: outer) (isBlockTag t) (.element m t a) path [] [] ks =
      nodes table o (⟨output, isBlock⟩ :: outer') (isBlockTag t) (.element m t a) path' [] [] ks) :
    elementText table o outer isBlock path output m t a ks =
      elementText table o outer' isBlock path' output m t a ks := by
  have same := RuleTable.find_same table ⟨.element m t a ks, path⟩ ⟨.element m t a ks, path'⟩ o m.blank
    fun rule listed => (near rule listed).claims _ path path' o beside
  cases found : table.find ⟨.element m t a ks, path⟩ o m.blank with
  | error failure =>
      rw [element_failed _ _ _ _ _ _ _ _ _ _ failure found,
        element_failed _ _ _ _ _ _ _ _ _ _ failure (same ▸ found)]
  | ok rule =>
      have looks := RuleTable.find_looks_near table near _ o m.blank rule found
      have content : contentText table o (⟨output, isBlock⟩ :: outer) m t a path ks rule =
          contentText table o (⟨output, isBlock⟩ :: outer') m t a path' ks rule := by
        rw [contentText, contentText, below]
      rw [element_found _ _ _ _ _ _ _ _ _ _ rule found, element_found _ _ _ _ _ _ _ _ _ _ rule (same ▸ found),
        enter_near o _ path path' beside, leave_anywhere o _ path path', content]
      simp only [replace_near o _ path path' rule looks flowing beside]

mutual

theorem node_near (table : RuleTable) (near : ∀ rule ∈ table.inOrder, rule.LooksNear) (o : Options)
    (flowing : o.preformattedCode = false) (outer outer' : List Open) (isBlock : Bool) (path path' : List Step)
    (output : Chars) (n : Marked) (beside : Near path path') (level : OneLine isBlock outer outer') :
    node table o outer isBlock path output n = node table o outer' isBlock path' output n := by
  cases n with
  | text m data =>
      have line := line_same isBlock outer outer' level output
      simp only [node, textOutput, line]
  | comment m data => rw [node, node]
  | document m ks => rw [node, node]
  | element m t a ks =>
      rw [node_element, node_element, element_near table near o flowing outer outer' isBlock path path' output m t a
        ks beside]
      exact nodes_near table near o flowing _ _ (isBlockTag t) _ path path' [] [] ks
        (.inr (line_same isBlock outer outer' level output))

-- The path of a child begins with its own container, so that of the container itself is out of sight.
theorem nodes_near (table : RuleTable) (near : ∀ rule ∈ table.inOrder, rule.LooksNear) (o : Options)
    (flowing : o.preformattedCode = false) (outer outer' : List Open) (isBlock : Bool) (head : Head)
    (path path' : List Step) (before : List Marked) (output : Chars) (ks : List Marked) (level : OneLine isBlock outer outer') :
    nodes table o outer isBlock head path before output ks =
      nodes table o outer' isBlock head path' before output ks := by
  cases ks with
  | nil => rw [nodes, nodes]
  | cons n rest =>
      have beside : Near (Site.pathTo head path before rest n) (Site.pathTo head path' before rest n) := by
        unfold Site.pathTo
        split <;> rfl
      rw [nodes, nodes, node_near table near o flowing outer outer' isBlock _ _ output n beside level]
      exact bind_congr fun output =>
        nodes_near table near o flowing outer outer' isBlock head path path' _ output rest level

end

def OutsideItem (path : List Step) : Prop := ∀ step ∈ path.head?, step.head.tag ≠ "li"

theorem list_outside (content : Chars) (n : Marked) (path : List Step) (o : Options) (outside : OutsideItem path) :
    Block.list content ⟨n, path⟩ o = pure (Block.apart content) := by
  cases path with
  | nil => rfl
  | cons step outer =>
      have elsewhere : (step.head.tag == "li" && step.isLastElement) = false := by simp [outside step rfl]
      funext s
      change EStateM.Result.ok (if (step.head.tag == "li" && step.isLastElement) = true then _ else
        Block.apart content) s = _
      rw [elsewhere, if_neg Bool.false_ne_true]
      rfl

section

variable (o : Options) (m : Mark) (t : String) (a : Attrs) (ks : List Marked) (path path' : List Step)

theorem enter_anywhere (item : t ≠ "li") :
    enter o ⟨.element m t a ks, path⟩ = enter o ⟨.element m t a ks, path'⟩ := by
  have marked : needsEndlessMarker ⟨.element m t a ks, path⟩ = needsEndlessMarker ⟨.element m t a ks, path'⟩ := by
    by_cases numbered : t = "ol"
    · rw [numbered]
      rfl
    · simp [needsEndlessMarker, item, numbered]
  have state (s : State) : opened o ⟨.element m t a ks, path⟩ s = opened o ⟨.element m t a ks, path'⟩ s := by
    rcases counted_tag t with rfl | rfl | rfl | rfl | rfl | rfl | ⟨ul, ol, li, quote, coded, pre⟩
    case inr.inr.inl => exact absurd rfl item
    case inr.inr.inr.inr.inr.inr => simp [opened, Site.tag, Node.tag]
    all_goals rfl
  funext s
  rw [enter_eq, enter_eq, marked, state]

theorem block_claims (block : isBlockTag t = true) (rule : Rule) (member : rule ∈ ({} : RuleTable).inOrder) :
    rule.claims ⟨.element m t a ks, path⟩ o = rule.claims ⟨.element m t a ks, path'⟩ o := by
  cases default_table_looks rule member with
  | nowhere nowhere => exact nowhere.claims _ path path' o
  | list claims | item claims =>
      rw [Rule.claims, Rule.claims, claims]
      rfl
  | code claims =>
      have uncoded : (t == "code") = false := by
        rw [beq_eq_false_iff_ne]
        rintro rfl
        exact absurd block (by decide)
      rw [Rule.claims, Rule.claims, claims]
      simp [Filter.holds, Inline.isCode, Node.isNamed, uncoded]

theorem block_replacement (item : t ≠ "li") (outside : isListTag t = true → OutsideItem path ∧ OutsideItem path')
    (rule : Rule) (found : ({} : RuleTable).find ⟨.element m t a ks, path⟩ o m.blank = .ok rule) (content : Chars) :
    rule.replacement content ⟨.element m t a ks, path⟩ o = rule.replacement content ⟨.element m t a ks, path'⟩ o := by
  rcases RuleTable.find_cases {} _ o m.blank rule found with ⟨-, rfl⟩ | ⟨-, listed, claimed⟩ | ⟨-, rfl, -⟩
  · rfl
  · cases default_table_looks rule listed with
    | nowhere nowhere => exact nowhere.replacement content _ path path' o
    | list claims replaces =>
        have named : isListTag t = true := by
          simpa [Rule.claims, claims, Site.tag, Node.tag, isListTag] using claimed
        obtain ⟨here, there⟩ := outside named
        rw [replaces, list_outside content _ path o here, list_outside content _ path' o there]
    | item claims replaces =>
        have named : t = "li" := by simpa [Rule.claims, claims, Site.tag, Node.tag] using claimed
        exact absurd named item
    | code claims replaces =>
        rw [replaces]
        rfl
  · rfl

-- Block elements do not even look at what is written before them.
theorem block_anywhere (block : isBlockTag t = true) (flowing : o.preformattedCode = false) (item : t ≠ "li")
    (outside : isListTag t = true → OutsideItem path ∧ OutsideItem path') (outer outer' : List Open)
    (isBlock isBlock' : Bool) (output output' : Chars) :
    elementText {} o outer isBlock path output m t a ks =
      elementText {} o outer' isBlock' path' output' m t a ks := by
  have same := RuleTable.find_same {} ⟨.element m t a ks, path⟩ ⟨.element m t a ks, path'⟩ o m.blank
    (block_claims o m t a ks path path' block)
  cases found : ({} : RuleTable).find ⟨.element m t a ks, path⟩ o m.blank with
  | error failure =>
      rw [element_failed _ _ _ _ _ _ _ _ _ _ failure found,
        element_failed _ _ _ _ _ _ _ _ _ _ failure (same ▸ found)]
  | ok rule =>
      have content : contentText {} o (⟨output, isBlock⟩ :: outer) m t a path ks rule =
          contentText {} o (⟨output', isBlock'⟩ :: outer') m t a path' ks rule := by
        have below := nodes_near {} default_table_near o flowing (⟨output, isBlock⟩ :: outer)
          (⟨output', isBlock'⟩ :: outer') (isBlockTag t) (.element m t a) path path' [] [] ks (.inl block)
        rw [contentText, contentText, below]
      have replaced (content : Chars) : replace rule ⟨.element m t a ks, path⟩ o content output =
          replace rule ⟨.element m t a ks, path'⟩ o content output' := by
        have inline : Node.isBlock (.element m t a ks) = true := block
        simp only [replace, inline, Bool.true_or, if_true]
        exact block_replacement o m t a ks path path' item outside rule found content
      rw [element_found _ _ _ _ _ _ _ _ _ _ rule found, element_found _ _ _ _ _ _ _ _ _ _ rule (same ▸ found),
        enter_anywhere o m t a ks path path' item, leave_anywhere o _ path path', content]
      simp only [replaced]

end

end Render

end Downmark
