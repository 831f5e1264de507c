import Downmark.Proofs.BlockTexts
/-!
Documents made of blocks. What is converted of one block does not depend on the others, and a blank line
parts it from the next one that leaves anything. Main statement: converting some blocks is converting each
of them alone and stacking what comes out.
-/

set_option autoImplicit false

namespace Downmark

theorem prepare_tag (o : Options) (n : Marked) : (prepare o n).tag = n.tag := by
  cases n with
  | element m t a ks =>
      unfold prepare Whitespace.collapse
      dsimp only
      split <;> rfl
  | text | comment | document => rfl

namespace Render

-- What the rule of a block writes for it before it is trimmed and joined to other blocks.
def ruleOutput (o : Options) (b : Tree) : Except Failure Chars := answer (blockText o (prepare o (unmark b))) {}

structure StandsAlone (b : Tree) : Prop where
  tag : b.tag ∈ standingTags
  bodiless : b.find? "body" = none

-- No white space comes before the newlines at the end of what the rule writes.
def EndsSolid (o : Options) (b : Tree) : Prop := ∀ written, ruleOutput o b = .ok written →
  (Text.trimEnd Text.isNewline written).getLast?.any Text.isBlank = false

theorem alone_bodiless (bs : List Tree) (alone : ∀ b ∈ bs, StandsAlone b) : Bodiless bs := by
  induction bs with
  | nil => simp [Bodiless, Node.forest]
  | cons b rest ih =>
      rw [List.forall_mem_cons] at alone
      obtain ⟨⟨tag, none⟩, others⟩ := alone
      intro n member
      rcases List.mem_cons.mp member with rfl | inside
      · cases n with
        | element m t a ks =>
            have other : t ≠ "body" := by
              rintro rfl
              exact absurd (show "body" ∈ standingTags from tag) (by decide)
            simpa [Node.isNamed] using other
        | text | comment | document => rfl
      · rcases List.mem_append.mp inside with below | later
        · simpa using List.find?_eq_none.mp none n below
        · exact ih others n later

theorem alone_blocks (bs : List Tree) (alone : ∀ b ∈ bs, StandsAlone b) : ∀ n ∈ bs.map unmark, n.isBlock = true := by
  intro n member
  obtain ⟨b, listed, rfl⟩ := List.mem_map.mp member
  change isBlockTag (unmark b).tag = true
  rw [unmark, Node.map_marks_tag]
  exact (standing_block b.tag (alone b listed).tag).1

section

variable (o : Options) (inlined : o.linkStyle = .inlined) (flowing : o.preformattedCode = false)

include inlined flowing

-- The blocks below any container, prepared within it.
theorem blocks_answer (outer : List Open) (isBlock : Bool) (head : Head) (path : List Step) (bs : List Tree)
    (alone : ∀ b ∈ bs, StandsAlone b) (outside : ∀ b ∈ bs, isListTag b.tag = true → head.tag ≠ "li") :
    answer (nodes {} o outer isBlock head path [] [] ((bs.map unmark).map (prepare o))) {} =
      (bs.mapM (ruleOutput o)).map fun texts => texts.foldl join [] := by
  have standing : ∀ n ∈ (bs.map unmark).map (prepare o), Standing head n := by
    intro n member
    obtain ⟨u, marked, rfl⟩ := List.mem_map.mp member
    obtain ⟨b, listed, rfl⟩ := List.mem_map.mp marked
    have tag : (prepare o (unmark b)).tag = b.tag := (prepare_tag o _).trans (Node.map_marks_tag _ b)
    have named := standing_block b.tag (alone b listed).tag
    exact ⟨by rw [Node.isBlock, tag]; exact named.1, by rw [tag]; exact named.2, by rw [tag]; exact outside b listed⟩
  have texts := block_text_steady o inlined
  have outputs : ((bs.map unmark).map (prepare o)).mapM (fun n => answer (blockText o n) {}) =
      bs.mapM (ruleOutput o) := by
    rw [List.map_map, List.mapM_map]
    rfl
  rw [blocks_joined o flowing outer isBlock head path [] [] _ standing,
    answer_bind _ _ (steady_map (blockText o) _ fun n _ => texts n), answer_map _ _ fun n _ => texts n, outputs]
  cases bs.mapM (ruleOutput o) <;> rfl

theorem document_conversion (bs : List Tree) (alone : ∀ b ∈ bs, StandsAlone b) :
    conversion o (.document () bs) =
      (bs.mapM (ruleOutput o)).map fun texts => trimmed (texts.foldl join []) := by
  have prepared : prepare o (Site.ofTree (.document () bs)).node =
      .document {} ((bs.map unmark).map (prepare o)) := by
    rw [← prepare_document o flowing {} _ (alone_blocks bs alone)]
    exact congrArg (fun ks => prepare o (.document {} ks)) (Node.map_all_marks_map _ bs)
  have top : root {} o (Site.ofTree (.document () bs)) =
      nodes {} o [] true (.document {}) [] [] [] ((bs.map unmark).map (prepare o)) := by
    unfold root
    rw [document_root bs (alone_bodiless bs alone)]
    unfold Site.prepared
    rw [prepared]
    rfl
  have steady := nodes_steady {} o (inlined_table_steady o inlined) [] true (.document {}) [] [] []
    ((bs.map unmark).map (prepare o))
  rw [conversion_eq o _ (top ▸ steady), top, blocks_answer o inlined flowing [] true (.document {}) [] bs
    alone (by simp [Head.tag])]
  cases bs.mapM (ruleOutput o) <;> rfl

theorem rule_output_margins (b : Tree) (alone : StandsAlone b) (written : Chars)
    (worked : ruleOutput o b = .ok written) : StartsApart written ∧ Begins written := by
  have tag : (prepare o (unmark b)).tag = b.tag := (prepare_tag o _).trans (Node.map_marks_tag _ b)
  unfold ruleOutput answer at worked
  split at worked
  · rename_i result a t rendered
    cases worked
    exact ⟨block_text_apart o _ (by rw [tag]; exact alone.tag) _ _ _ rendered,
      block_text_begins o inlined flowing _ (prepared_tidy o _ (unmarked_tidy b)) _ _ _ rendered⟩
  · cases worked

end

theorem bare_core (s : Chars) (begins : Begins s)
    (solid : (Text.trimEnd Text.isNewline s).getLast?.any Text.isBlank = false) : Bare (core s) := by
  refine ⟨fun c member => ?_, ?_⟩
  · have stop : Text.trimStart Text.isNewline (core s) = core s := by
      rw [core, ← Text.trim_both]
      exact Text.drop_none _ _ (Text.drop_stop _ _)
    have first := begins_trim s begins
    rw [Begins] at first
    change ∀ c ∈ (Text.trimStart Text.isNewline (core s)).head?, _ at first
    rw [stop] at first
    exact first c member
  · obtain ⟨run, whole, -⟩ := Text.trim_start_run Text.isNewline (Text.trimEnd Text.isNewline s)
    rw [Text.trim_both] at whole
    rw [whole, List.getLast?_append] at solid
    change (Text.trim Text.isNewline s).getLast?.any Text.isBlank = false
    cases last : (Text.trim Text.isNewline s).getLast? with
    | none => rfl
    | some c => simpa [last] using solid

theorem bare_stacked (blocks : List Chars) (bare : ∀ block ∈ blocks, Bare block) : Bare (stacked blocks) := by
  constructor
  · rcases stacked_first blocks with none | ⟨block, member, some, rest, whole⟩
    · simp [none]
    · intro c first
      obtain ⟨d, more, rfl⟩ := List.exists_cons_of_ne_nil some
      rw [whole] at first
      exact (bare _ member).first c first
  · rcases stacked_last blocks with none | ⟨block, member, some, before, whole⟩
    · simp [none]
    · rw [whole, List.getLast?_append, List.getLast?_eq_some_getLast some]
      have last := (bare block member).last
      rwa [List.getLast?_eq_some_getLast some] at last

theorem trimmed_blocks (texts : List Chars) (apart : ∀ text ∈ texts, StartsApart text)
    (bare : ∀ text ∈ texts, Bare (core text)) : trimmed (texts.foldl join []) = stacked (texts.map core) := by
  have whole : core (texts.foldl join []) = stacked (texts.map core) := by
    rw [core_join_all [] texts apart]
    exact stacked_empty _
  rw [trimmed, finish_core _ (whole ▸ bare_stacked _ (by simpa using bare)), whole]

theorem map_ok_mem {α β : Type} (f : α → Except Failure β) (xs : List α) (ys : List β) (worked : xs.mapM f = .ok ys) :
    ∀ y ∈ ys, ∃ x ∈ xs, f x = .ok y := by
  induction xs generalizing ys with
  | nil =>
      cases worked
      simp
  | cons x rest ih =>
      rw [List.mapM_cons] at worked
      cases first : f x with
      | error failure =>
          rw [first] at worked
          cases worked
      | ok y =>
          cases others : rest.mapM f with
          | error failure =>
              rw [first, others] at worked
              cases worked
          | ok zs =>
              rw [first, others] at worked
              cases worked
              rw [List.forall_mem_cons]
              exact ⟨⟨x, List.mem_cons_self, first⟩, fun z member => by
                obtain ⟨w, inside, found⟩ := ih zs others z member
                exact ⟨w, List.mem_cons_of_mem x inside, found⟩⟩

theorem map_cores (f : Tree → Except Failure Chars) (bs : List Tree) :
    (bs.mapM fun b => (f b).map core) = (bs.mapM f).map (List.map core) := by
  induction bs with
  | nil => rfl
  | cons b rest ih =>
      rw [List.mapM_cons, List.mapM_cons, ih]
      cases f b with
      | error failure => rfl
      | ok text => cases rest.mapM f <;> rfl

theorem map_same {α β : Type} (f g : α → Except Failure β) (xs : List α) (same : ∀ x ∈ xs, f x = g x) :
    xs.mapM f = xs.mapM g := by
  induction xs with
  | nil => rfl
  | cons x rest ih =>
      rw [List.forall_mem_cons] at same
      rw [List.mapM_cons, List.mapM_cons, same.1, ih same.2]

section

variable (o : Options) (inlined : o.linkStyle = .inlined) (flowing : o.preformattedCode = false)

include inlined flowing

theorem outputs_margins (bs : List Tree) (alone : ∀ b ∈ bs, StandsAlone b) (solid : ∀ b ∈ bs, EndsSolid o b)
    (texts : List Chars) (outputs : bs.mapM (ruleOutput o) = .ok texts) :
    ∀ text ∈ texts, StartsApart text ∧ Bare (core text) := by
  intro text member
  obtain ⟨b, listed, output⟩ := map_ok_mem _ bs texts outputs text member
  obtain ⟨apart, begins⟩ := rule_output_margins o inlined flowing b (alone b listed) text output
  exact ⟨apart, bare_core text begins (solid b listed text output)⟩

theorem document_stacks (bs : List Tree) (alone : ∀ b ∈ bs, StandsAlone b) (solid : ∀ b ∈ bs, EndsSolid o b) :
    conversion o (.document () bs) = (bs.mapM (ruleOutput o)).map fun texts => stacked (texts.map core) := by
  rw [document_conversion o inlined flowing bs alone]
  cases outputs : bs.mapM (ruleOutput o) with
  | error failure => rfl
  | ok texts =>
      have margins := outputs_margins o inlined flowing bs alone solid texts outputs
      have whole := trimmed_blocks texts (fun text member => (margins text member).1)
        fun text member => (margins text member).2
      exact congrArg Except.ok whole

theorem blocks_compose (bs : List Tree) (alone : ∀ b ∈ bs, StandsAlone b) (solid : ∀ b ∈ bs, EndsSolid o b) :
    conversion o (.document () bs) = (bs.mapM fun b => conversion o (.document () [b])).map stacked := by
  have single (b : Tree) (listed : b ∈ bs) : conversion o (.document () [b]) = (ruleOutput o b).map core := by
    rw [document_stacks o inlined flowing [b] (by simpa using alone b listed) (by simpa using solid b listed),
      List.mapM_cons, List.mapM_nil]
    cases ruleOutput o b with
    | error failure => rfl
    | ok text => exact congrArg Except.ok (stacked_single (core text))
  rw [document_stacks o inlined flowing bs alone solid, map_same _ _ bs single, map_cores]
  cases bs.mapM (ruleOutput o) <;> rfl

end

-- The blank quote leaves nothing, and so no blank line either.
def mixedBlocks : List Tree :=
  [.element () "h1" [] [.text () ['a']], .element () "blockquote" [] [.element () "p" [] []],
    .element () "ul" [] [.element () "li" [] [.text () ['b']]], .element () "hr" [] []]

theorem mixed_blocks_compose :
    conversion {} (.document () mixedBlocks) = .ok "# a\n\n* b\n\n* * *".toList ∧
    conversion {} (.document () mixedBlocks) =
      (mixedBlocks.mapM fun b => conversion {} (.document () [b])).map stacked := by
  have alone : ∀ b ∈ mixedBlocks, StandsAlone b := by
    simp only [mixedBlocks, List.forall_mem_cons]
    exact ⟨⟨by decide, rfl⟩, ⟨by decide, rfl⟩, ⟨by decide, rfl⟩, ⟨by decide, rfl⟩, by simp⟩
  have solid : ∀ b ∈ mixedBlocks, EndsSolid {} b := by
    simp only [mixedBlocks, List.forall_mem_cons]
    refine ⟨?_, ?_, ?_, ?_, by simp⟩
    all_goals
      rintro written ⟨⟩
      rfl
  exact ⟨rfl, blocks_compose {} rfl rfl mixedBlocks alone solid⟩

end Render

end Downmark
