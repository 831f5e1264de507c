import Mathlib.Tactic.Tauto
import Downmark.Gfm.Plugins
import Downmark.Proofs.Steady
import Downmark.Proofs.TableShape
/-!
The rules that bundled plugins register, and which of them converts a part of a pipe table. Main statement: once
the plugin for tables or the one for all of them is applied, alone or with others, rows, cells, sections and tables
with a heading row are converted by the rules made for them.
-/

set_option autoImplicit false

namespace Downmark

/-- The rules that some work registers. -/
def Registers (rules : List Rule) (code : PluginCode) : Prop := ∀ w w', code w = .ok () w' →
  ∀ rule, rule ∈ w'.table.plugins ↔ rule ∈ rules ∨ rule ∈ w.table.plugins

theorem registers_nothing (code : PluginCode)
    (same : ∀ w w', code w = .ok () w' → w'.table.plugins = w.table.plugins) : Registers [] code :=
  fun w w' worked rule => by simp [same w w' worked]

theorem registers_bind (first : PluginCode) (next : Unit → PluginCode) (before after : List Rule)
    (registers : Registers before first) (then_ : Registers after (next ())) :
    Registers (before ++ after) (first >>= next) := by
  intro w w' worked rule
  change EStateM.bind first next w = _ at worked
  rw [EStateM.bind] at worked
  split at worked
  · rename_i middle went
    rw [then_ _ _ worked rule, registers _ _ went rule, List.mem_append]
    tauto
  · cases worked

theorem registers_rule (rule : Rule) : Registers [rule] (Workbench.register rule) := by
  intro w w' worked other
  have result : Workbench.accept (w.table.register rule) w = .ok () w' := worked
  cases registered : w.table.register rule with
  | error failure => rw [registered] at result; cases result
  | ok put =>
      rw [registered] at result
      have inserted : put.1 = w.table.insert rule := by
        rw [RuleTable.register] at registered
        split at registered
        · cases registered
        · cases registered
          rfl
      obtain rfl : { table := put.1, log := w.log ++ put.2 } = w' := by
        cases result
        rfl
      rw [inserted, RuleTable.insert]
      cases w.table.priority <;> simp [or_comm]

theorem registers_keep (filter : FilterSpec) : Registers [] (Workbench.keep filter) := by
  refine registers_nothing _ fun w w' worked => ?_
  have result : Workbench.accept ((w.table.keep filter).map fun table => (table, [])) w = .ok () w' := worked
  rw [RuleTable.keep] at result
  cases checked : filter.check "keep" with
  | error failure => rw [checked] at result; cases result
  | ok filter =>
      rw [checked] at result
      cases result
      rfl

namespace Gfm

def cellRule : Rule := { name := "table-cell", filter := .tags ["th", "td"], replacement := cell }

def rowRule : Rule := { name := "table-row", filter := .tags ["tr"], replacement := row }

def sectionRule : Rule :=
  { name := "table-section", filter := .tags ["thead", "tbody", "tfoot"], replacement := tableSection }

def tableRule : Rule :=
  { name := "table", filter := .holds fun site _ => isPipeTable site, replacement := table }

def strikethroughRule : Rule :=
  { name := "strikethrough", filter := .tags ["del", "s", "strike"], replacement := strikethrough }

def taskRule : Rule :=
  { name := "task-list-items", filter := .holds fun site _ => isTaskBox site, replacement := taskBox }

def highlightedRule : Rule :=
  { name := "highlighted-code-block", filter := .holds fun site _ => isHighlighted site.node,
    replacement := highlightedCode, rendersChildren := false }

def tableRules : List Rule := [cellRule, rowRule, sectionRule, tableRule]

/-- The rules that a bundled plugin registers, by its name. -/
def rulesOf : String → List Rule
  | "gfm" => highlightedRule :: strikethroughRule :: (tableRules ++ [taskRule])
  | "tables" => tableRules
  | "strikethrough" => [strikethroughRule]
  | "task-list-items" => [taskRule]
  | _ => [highlightedRule]

theorem tables_register : Registers tableRules tablesPlugin :=
  registers_bind _ _ [] tableRules (registers_keep _) <|
    registers_bind _ _ [cellRule] [rowRule, sectionRule, tableRule] (registers_rule cellRule) <|
    registers_bind _ _ [rowRule] [sectionRule, tableRule] (registers_rule rowRule) <|
    registers_bind _ _ [sectionRule] [tableRule] (registers_rule sectionRule) (registers_rule tableRule)

theorem bundled_register : ∀ p ∈ bundled, Registers (rulesOf p.name) p.code := by
  simp only [bundled, List.forall_mem_cons]
  refine ⟨?_, tables_register, registers_rule strikethroughRule, registers_rule taskRule,
    registers_rule highlightedRule, by simp⟩
  exact registers_bind _ _ [highlightedRule] (strikethroughRule :: (tableRules ++ [taskRule]))
    (registers_rule highlightedRule) <|
    registers_bind _ _ [strikethroughRule] (tableRules ++ [taskRule]) (registers_rule strikethroughRule) <|
    registers_bind _ _ tableRules [taskRule] tables_register (registers_rule taskRule)

theorem plugins_register (plugins : List Plugin) (known : ∀ p ∈ plugins, p ∈ bundled) :
    Registers (plugins.flatMap fun p => rulesOf p.name) (plugins.forM Plugin.apply) := by
  induction plugins with
  | nil => exact registers_nothing _ fun w w' worked => by cases worked; rfl
  | cons p rest ih =>
      rw [List.forall_mem_cons] at known
      have applied : Registers (rulesOf p.name) p.apply := by
        intro w w' worked
        rw [Plugin.apply] at worked
        split at worked
        · rename_i middle went
          cases worked
          exact bundled_register p known.1 w middle went
        · cases worked
      exact registers_bind _ _ _ _ applied (ih known.2)

/-- Tables whose registered rules are bundled ones, those for pipe tables among them. -/
structure Tabling (rules : List Rule) : Prop where
  known : ∀ rule ∈ rules, rule ∈ highlightedRule :: strikethroughRule :: (tableRules ++ [taskRule])
  tabling : ∀ rule ∈ tableRules, rule ∈ rules

theorem rules_known (name : String) :
    ∀ rule ∈ rulesOf name, rule ∈ highlightedRule :: strikethroughRule :: (tableRules ++ [taskRule]) := by
  intro rule member
  unfold rulesOf at member
  split at member <;> simp only [List.mem_cons, List.mem_append] at member ⊢ <;> tauto

theorem plugins_tabling (plugins : List Plugin) (known : ∀ p ∈ plugins, p ∈ bundled)
    (tabling : ∃ p ∈ plugins, p.name = "gfm" ∨ p.name = "tables") (w : Workbench)
    (applied : plugins.forM Plugin.apply {} = .ok () w) : Tabling w.table.plugins := by
  have registered := plugins_register plugins known {} w applied
  constructor
  · intro rule member
    rcases (registered rule).mp member with new | old
    · obtain ⟨p, -, listed⟩ := List.mem_flatMap.mp new
      exact rules_known p.name rule listed
    · cases old
  · intro rule member
    obtain ⟨p, used, name⟩ := tabling
    refine (registered rule).mpr (.inl (List.mem_flatMap.mpr ⟨p, used, ?_⟩))
    rcases name with name | name
    · rw [name]
      exact List.mem_cons_of_mem _ (List.mem_cons_of_mem _ (List.mem_append_left _ member))
    · rw [name]
      exact member

/-- The only rule of some to claim a site is found first. -/
theorem first_claim_only (rules more : List Rule) (rule : Rule) (site : Site) (o : Options) (listed : rule ∈ rules)
    (claims : rule.claims site o = .ok true)
    (others : ∀ other ∈ rules, other = rule ∨ other.claims site o = .ok false) :
    RuleTable.firstClaim site o (rules ++ more) = .ok (some rule) := by
  induction rules with
  | nil => cases listed
  | cons first rest ih =>
      rw [List.forall_mem_cons] at others
      rw [List.cons_append, RuleTable.firstClaim]
      rcases others.1 with rfl | passes
      · rw [claims]
      · rw [passes]
        refine ih (List.mem_of_ne_of_mem ?_ listed) others.2
        rintro rfl
        cases claims.symm.trans passes

theorem find_only (table : RuleTable) (tabling : Tabling table.plugins) (rule : Rule) (listed : rule ∈ tableRules)
    (site : Site) (o : Options) (claims : rule.claims site o = .ok true)
    (others : ∀ other ∈ highlightedRule :: strikethroughRule :: (tableRules ++ [taskRule]),
      other = rule ∨ other.claims site o = .ok false) : table.find site o false = .ok rule := by
  have first := first_claim_only table.plugins (table.builtins ++ table.kept ++ table.removed) rule site o
    (tabling.tabling rule listed) claims fun other member => others other (tabling.known other member)
  rw [RuleTable.find, if_neg Bool.false_ne_true, RuleTable.inOrder, List.append_assoc, List.append_assoc,
    ← List.append_assoc table.builtins, first]
  rfl

section

variable (table : RuleTable) (tabling : Tabling table.plugins) (o : Options)
variable (m : Mark) (t : String) (a : Attrs) (ks : List Marked) (path : List Step)

include tabling

theorem cell_found (named : isCell (.element m t a ks) = true) :
    table.find ⟨.element m t a ks, path⟩ o false = .ok cellRule := by
  simp only [isCell, Node.isNamed, Bool.or_eq_true, beq_iff_eq] at named
  refine find_only table tabling cellRule (by simp [tableRules]) _ o ?_ ?_
  · rcases named with rfl | rfl <;> rfl
  · simp only [tableRules, List.cons_append, List.nil_append, List.forall_mem_cons]
    rcases named with rfl | rfl <;>
      exact ⟨.inr rfl, .inr rfl, .inl trivial, .inr rfl, .inr rfl, .inr rfl, .inr rfl, by simp⟩

theorem row_found (named : t = "tr") : table.find ⟨.element m t a ks, path⟩ o false = .ok rowRule := by
  subst named
  refine find_only table tabling rowRule (by simp [tableRules]) _ o rfl ?_
  simp only [tableRules, List.cons_append, List.nil_append, List.forall_mem_cons]
  exact ⟨.inr rfl, .inr rfl, .inr rfl, .inl trivial, .inr rfl, .inr rfl, .inr rfl, by simp⟩

theorem section_found (named : isSection (.element m t a ks) = true) :
    table.find ⟨.element m t a ks, path⟩ o false = .ok sectionRule := by
  simp only [isSection, Node.isNamed, Bool.or_eq_true, beq_iff_eq] at named
  refine find_only table tabling sectionRule (by simp [tableRules]) _ o ?_ ?_
  · rcases named with (rfl | rfl) | rfl <;> rfl
  · simp only [tableRules, List.cons_append, List.nil_append, List.forall_mem_cons]
    rcases named with (rfl | rfl) | rfl <;>
      exact ⟨.inr rfl, .inr rfl, .inr rfl, .inr rfl, .inl trivial, .inr rfl, .inr rfl, by simp⟩

theorem table_found (pipe : isPipeTable ⟨.element m t a ks, path⟩ = true) :
    table.find ⟨.element m t a ks, path⟩ o false = .ok tableRule := by
  have named : t = "table" := by
    rw [isPipeTable, Bool.and_eq_true] at pipe
    exact beq_iff_eq.mp pipe.1
  subst named
  refine find_only table tabling tableRule (by simp [tableRules]) _ o ?_ ?_
  · exact congrArg Except.ok pipe
  · simp only [tableRules, List.cons_append, List.nil_append, List.forall_mem_cons]
    exact ⟨.inr rfl, .inr rfl, .inr rfl, .inr rfl, .inr rfl, .inl trivial, .inr rfl, by simp⟩

end

end Gfm

end Downmark
