import Downmark.Proofs.OwnTargets
import Downmark.Proofs.Steady
import Downmark.Proofs.Marks
import Downmark.Gfm.Plugins
/-!
Rules that never fail. Such a rule can always tell whether it claims an element, and writes every element that it
claims, whatever the state, whose counters it leaves as they are and to which it adds no definition but its own. Main
statement: all rules of a table that was the default one are of this kind, whichever bundled plugins were applied to it,
and applying them does not fail.
-/

set_option autoImplicit false

namespace Downmark

open Render

def Works {α : Type} (work : Rendering α) : Prop := ∀ s, ∃ a t, work s = .ok a t

structure Rule.Reliable (rule : Rule) : Prop where
  answers : ∀ site o, ∃ claimed, rule.claims site o = .ok claimed
  writes : ∀ content site o, rule.claims site o = .ok true → Works (rule.replacement content site o)
  keeps : KeepsCounters rule.replacement
  defines : DefinesOwn rule

theorem works_pure {α : Type} (a : α) : Works (pure a : Rendering α) := fun s => ⟨a, s, rfl⟩

theorem works_bind {α β : Type} (first : Rendering α) (next : α → Rendering β) (before : Works first)
    (after : ∀ a, Works (next a)) : Works (first >>= next) := by
  intro s
  obtain ⟨a, t, worked⟩ := before s
  rw [bind_of_ok first next s t a worked]
  exact after a t

theorem function_works (f : Chars → Site → Options → State → Chars) (content : Chars) (site : Site) (o : Options) :
    Works (Replacement.ofFunction f content site o) := fun s => ⟨f content site o s, s, rfl⟩

theorem ask_works (label : Chars) (request : Reference.Collector → Reference.Added × Reference.Collector) :
    Works (Link.ask label request) := by
  refine works_bind _ _ (fun s => ⟨s, s, rfl⟩) fun s => works_bind _ _ (fun _ => ⟨(), _, rfl⟩) fun _ => ?_
  split
  · exact works_bind _ _ (fun _ => ⟨(), _, rfl⟩) fun _ => works_pure _
  · exact works_pure _

theorem reference_suffix_works (text url : Chars) (title : Option Chars) (style : LabelStyle) :
    Works (Link.referenceSuffix text url title style) := by
  unfold Link.referenceSuffix
  split
  · exact works_bind _ _ (ask_works _ _) fun _ => works_pure _
  · refine works_bind _ _ (ask_works _ _) fun label => ?_
    split
    · exact works_pure _
    · exact works_pure _

theorem image_works (content : Chars) (site : Site) (o : Options) : Works (Link.image content site o) := by
  dsimp only [Link.image]
  split
  · exact works_pure []
  · split
    · exact works_bind _ _ (reference_suffix_works _ _ _ _) fun _ => works_pure _
    · exact works_pure _

-- A code block has a code element among its children, so the search below it finds one.
theorem code_block_works (style : CodeBlockStyle) (content : Chars) (site : Site) (o : Options)
    (block : CommonMark.isCodeBlock style site o = true) :
    Works (Block.indentedCode content site o) ∧ Works (Block.fencedCode content site o) := by
  obtain ⟨_, _, text, named⟩ := block_read site.node (by simpa using ((Bool.and_eq_true _ _).mp block).2)
  constructor
  · rw [Block.indentedCode, text]
    exact works_pure _
  · rw [Block.fencedCode, text, named]
    exact works_pure _

theorem reliable_function (name : String) (p : Site → Options → Bool) (f : Chars → Site → Options → State → Chars)
    (exclusive renders : Bool) : Rule.Reliable ⟨name, .holds p, .ofFunction f, exclusive, renders⟩ :=
  ⟨fun _ _ => ⟨_, rfl⟩, fun content site o _ => function_works f content site o, of_function_keeps f,
    function_defines_own _ f rfl⟩

theorem reliable_named (name : String) (tags : List String) (f : Chars → Site → Options → State → Chars)
    (exclusive renders : Bool) : Rule.Reliable ⟨name, .tags tags, .ofFunction f, exclusive, renders⟩ :=
  ⟨fun _ _ => ⟨_, rfl⟩, fun content site o _ => function_works f content site o, of_function_keeps f,
    function_defines_own _ f rfl⟩

theorem markdown_rules_reliable : ∀ rule ∈ CommonMark.rules, rule.Reliable := by
  have written : ∀ rule ∈ CommonMark.rules, (∀ site o, ∃ claimed, rule.claims site o = .ok claimed) ∧
      ∀ content site o, rule.claims site o = .ok true → Works (rule.replacement content site o) := by
    simp only [CommonMark.rules, List.forall_mem_cons]
    refine ⟨?paragraph, ?lineBreak, ?heading, ?quote, ?list, ?item, ?indented, ?fenced, ?preformatted, ?ruler,
      ?inlined, ?referenced, ?emphasis, ?strong, ?code, ?image, by simp⟩
    case indented =>
      refine ⟨fun _ _ => ⟨_, rfl⟩, fun content site o claims => ?_⟩
      exact (code_block_works .indented content site o (by simpa [Rule.claims, Filter.holds] using claims)).1
    case fenced =>
      refine ⟨fun _ _ => ⟨_, rfl⟩, fun content site o claims => ?_⟩
      exact (code_block_works .fenced content site o (by simpa [Rule.claims, Filter.holds] using claims)).2
    case referenced =>
      refine ⟨fun _ _ => ⟨_, rfl⟩, fun content site o _ => ?_⟩
      exact works_bind _ _ (reference_suffix_works _ _ _ _) fun _ => works_pure _
    case image => exact ⟨fun _ _ => ⟨_, rfl⟩, fun content site o _ => image_works content site o⟩
    all_goals exact ⟨fun _ _ => ⟨_, rfl⟩, fun content site o _ => function_works _ content site o⟩
  exact fun rule member => ⟨(written rule member).1, (written rule member).2, markdown_rules_keep rule member,
    markdown_rules_define rule member⟩

theorem default_table_reliable : ∀ rule ∈ ({} : RuleTable).inOrder, rule.Reliable := by
  intro rule member
  rcases List.mem_append.mp member with builtin | removed
  · exact markdown_rules_reliable rule (by simpa using builtin)
  · obtain ⟨tag, -, rfl⟩ := List.mem_map.mp removed
    exact reliable_named _ _ _ _ _

theorem first_claim_reliable (rules : List Rule) (reliable : ∀ rule ∈ rules, rule.Reliable) (site : Site)
    (o : Options) : ∃ found, RuleTable.firstClaim site o rules = .ok found := by
  induction rules with
  | nil => exact ⟨none, rfl⟩
  | cons rule rest ih =>
      rw [List.forall_mem_cons] at reliable
      obtain ⟨claimed, answer⟩ := reliable.1.answers site o
      rw [RuleTable.firstClaim, answer]
      cases claimed with
      | true => exact ⟨some rule, rfl⟩
      | false => exact ih reliable.2

theorem find_reliable (table : RuleTable) (reliable : ∀ rule ∈ table.inOrder, rule.Reliable) (site : Site)
    (o : Options) (blank : Bool) : ∃ rule, table.find site o blank = .ok rule ∧ KeepsCounters rule.replacement ∧
      ∀ content, Works (rule.replacement content site o) := by
  obtain ⟨first, claimed⟩ := first_claim_reliable table.inOrder reliable site o
  have found : ∃ rule, table.find site o blank = .ok rule := by
    cases blank with
    | true => exact ⟨Rule.blank, rfl⟩
    | false => exact ⟨first.getD Rule.default, by rw [RuleTable.find, if_neg Bool.false_ne_true, claimed]⟩
  obtain ⟨rule, found⟩ := found
  refine ⟨rule, found, ?_⟩
  rcases RuleTable.find_cases table site o blank rule found with ⟨-, rfl⟩ | ⟨-, listed, claims⟩ | ⟨-, rfl, -⟩
  · have blank : Rule.blank.Reliable := reliable_function _ _ _ _ _
    exact ⟨blank.keeps, fun content => blank.writes content site o rfl⟩
  · exact ⟨(reliable rule listed).keeps, fun content => (reliable rule listed).writes content site o claims⟩
  · have default : Rule.default.Reliable := reliable_function _ _ _ _ _
    exact ⟨default.keeps, fun content => default.writes content site o rfl⟩

/-- Tables that the bundled plugins are applied to: overlapping rules are not refused, and no rule fails. -/
structure RuleTable.Reliable (table : RuleTable) : Prop where
  lenient : table.strict = false
  rules : ∀ rule ∈ table.inOrder, rule.Reliable

/-- Whether a plugin can be applied to any such table, and leaves such a table. -/
def Safe (code : PluginCode) : Prop :=
  ∀ w : Workbench, w.table.Reliable → ∃ w', code w = .ok () w' ∧ w'.table.Reliable

theorem safe_bind (first : PluginCode) (next : Unit → PluginCode) (before : Safe first) (after : Safe (next ())) :
    Safe (first >>= next) := by
  intro w reliable
  obtain ⟨w', worked, kept⟩ := before w reliable
  obtain ⟨w'', went, still⟩ := after w' kept
  refine ⟨w'', ?_, still⟩
  change EStateM.bind first next w = _
  rw [EStateM.bind, worked, ← went]

theorem insert_rules (table : RuleTable) (added rule : Rule) (member : rule ∈ (table.insert added).inOrder) :
    rule = added ∨ rule ∈ table.inOrder := by
  unfold RuleTable.insert at member
  split at member <;> simp [RuleTable.inOrder] at member ⊢ <;> tauto

theorem safe_register (rule : Rule) (reliable : rule.Reliable) : Safe (Workbench.register rule) := by
  intro w table
  have registered : ∃ events, w.table.register rule = .ok (w.table.insert rule, events) := by
    unfold RuleTable.register
    rw [table.lenient]
    exact ⟨_, rfl⟩
  obtain ⟨events, registered⟩ := registered
  refine ⟨{ table := w.table.insert rule, log := w.log ++ events }, ?_, ?_⟩
  · change Workbench.accept (w.table.register rule) w = _
    rw [registered]
    rfl
  · refine ⟨?_, fun other member => ?_⟩
    · rw [← table.lenient, RuleTable.insert]
      split <;> rfl
    · rcases insert_rules w.table rule other member with rfl | old
      · exact reliable
      · exact table.rules other old

theorem safe_keep (p : Site → Options → Bool) :
    Safe (Workbench.keep (.predicate fun site o => .ok (p site o))) := by
  intro w table
  let kept := Rule.keep (.holds p)
  refine ⟨{ table := { w.table with kept := kept :: w.table.kept }, log := w.log ++ [] }, rfl, table.lenient, ?_⟩
  intro rule member
  have cases : rule = kept ∨ rule ∈ w.table.inOrder := by
    simp [RuleTable.inOrder] at member ⊢
    tauto
  rcases cases with rfl | old
  · exact reliable_function _ p _ _ _
  · exact table.rules rule old

namespace Gfm

theorem strikethrough_safe : Safe strikethroughPlugin := safe_register _ (reliable_named _ _ _ _ _)

theorem task_list_safe : Safe taskListPlugin := safe_register _ (reliable_function _ _ _ _ _)

theorem highlighted_safe : Safe highlightedPlugin := safe_register _ (reliable_function _ _ _ _ _)

theorem tables_safe : Safe tablesPlugin :=
  safe_bind _ _ (safe_keep _) <|
    safe_bind _ _ (safe_register _ (reliable_named _ _ _ _ _)) <|
    safe_bind _ _ (safe_register _ (reliable_named _ _ _ _ _)) <|
    safe_bind _ _ (safe_register _ (reliable_named _ _ _ _ _)) <|
    safe_register _ (reliable_function _ _ _ _ _)

theorem bundled_safe : ∀ p ∈ bundled, Safe p.code := by
  simp only [bundled, List.forall_mem_cons]
  refine ⟨?_, tables_safe, strikethrough_safe, task_list_safe, highlighted_safe, by simp⟩
  exact safe_bind _ _ highlighted_safe (safe_bind _ _ strikethrough_safe (safe_bind _ _ tables_safe task_list_safe))

theorem plugins_safe (plugins : List Plugin) (known : ∀ p ∈ plugins, p ∈ bundled) :
    Safe (plugins.forM Plugin.apply) := by
  induction plugins with
  | nil => exact fun w table => ⟨w, rfl, table⟩
  | cons p rest ih =>
      rw [List.forall_mem_cons] at known
      have applied : Safe p.apply := by
        intro w table
        obtain ⟨w', worked, kept⟩ := bundled_safe p known.1 w table
        exact ⟨{ w' with log := w'.log ++ [.pluginApplied p.name] }, by rw [Plugin.apply, worked], kept⟩
      exact safe_bind _ _ applied (ih known.2)

theorem default_reliable : ({} : RuleTable).Reliable := ⟨rfl, default_table_reliable⟩

end Gfm

end Downmark
