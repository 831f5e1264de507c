import Mathlib.Data.List.Basic
import Downmark.Plugin.Basic
import Downmark.Proofs.PlainElements
/-!
What a rule table holds after any calls that put rules into it, those that fail among them. A call
either leaves the table as it was or puts the one rule that it is about into the section it is meant
for. Main statement: the sections list what was put into them in the order in which the priority
asks for it, a search through them ends at the first rule that does not pass the element by, and in
a strict table no two exclusive rules claim the same element.
-/

set_option autoImplicit false

namespace Downmark

/-- A part of a rule table that rules are put into. -/
inductive Section where
  | registered
  | kept
  | removed
deriving DecidableEq

/-- A call that is to put a rule into a table. -/
inductive Registration where
  | register (rule : Rule)
  /-- Registers something of this kind that is no rule. -/
  | stray (kind : String)
  | add (spec : RuleSpec)
  | keep (filter : FilterSpec)
  | remove (filter : FilterSpec)

namespace Registration

def run : Registration → PluginCode
  | .register rule => Workbench.register rule
  | .stray kind => throw (.invalid (.notARule kind))
  | .add spec => Workbench.add spec
  | .keep filter => Workbench.keep filter
  | .remove filter => Workbench.remove filter

/-- The rule that a call is about and where it is to go, if the call describes a rule. -/
def rule? : Registration → Option (Section × Rule)
  | .register rule => some (.registered, rule)
  | .stray _ => none
  | .add spec => (Rule.make spec).toOption.map (Section.registered, ·)
  | .keep filter => (filter.check "keep").toOption.map fun filter => (.kept, Rule.keep filter)
  | .remove filter =>
    (filter.check "remove").toOption.map fun filter => (.removed, Rule.remove filter)

end Registration

/-- No element is claimed by both of two exclusive rules. -/
def Rule.Apart (a b : Rule) : Prop :=
  a.exclusive = true → b.exclusive = true →
    ∃ names others, a.tags? = some names ∧ b.tags? = some others ∧ names.Disjoint others

namespace Rule

theorem apart_symm (a b : Rule) (apart : a.Apart b) : b.Apart a := fun own other => by
  obtain ⟨names, others, left, right, disjoint⟩ := apart other own
  exact ⟨others, names, right, left, List.disjoint_symm disjoint⟩

theorem overlap_iff (a b : Rule) : RuleTable.overlap a b = false ↔
    ∃ names others, a.tags? = some names ∧ b.tags? = some others ∧ names.Disjoint others := by
  simp only [RuleTable.overlap, RuleTable.shared?]
  cases a.tags? with
  | none => simp
  | some names =>
      cases b.tags? with
      | none => simp
      | some others => simp [List.Disjoint]

end Rule

namespace RuleTable

end RuleTable

/-- The order in which rules are asked that were registered one after the other. -/
def Priority.order (priority : Priority) (rules : List Rule) : List Rule :=
  match priority with
  | .lastRegistered => rules.reverse
  | .firstRegistered => rules

namespace RuleTable

/-- The table with a rule put into a section. -/
def put (table : RuleTable) (place : Section) (rule : Rule) : RuleTable :=
  match place with
  | .registered => table.insert rule
  | .kept => { table with kept := rule :: table.kept }
  | .removed => { table with removed := rule :: table.removed }

/-- Whether a rule may be put into a section. -/
def Admits (table : RuleTable) (place : Section) (rule : Rule) : Prop :=
  place = .registered → table.strict = true → ∀ existing ∈ table.plugins, rule.Apart existing

theorem rivals_nil_iff (table : RuleTable) (rule : Rule) :
    table.rivals rule = [] ↔ ∀ existing ∈ table.plugins, rule.Apart existing := by
  by_cases exclusive : rule.exclusive = true
  · rw [rivals, if_pos exclusive, List.filter_eq_nil_iff]
    refine forall₂_congr fun existing _ => ?_
    rw [Bool.and_eq_true, not_and, Bool.not_eq_true, Rule.overlap_iff, Rule.Apart]
    exact ⟨fun apart _ => apart, fun apart => apart exclusive⟩
  · rw [rivals, if_neg exclusive]
    exact ⟨fun _ _ _ asked => absurd asked exclusive, fun _ => rfl⟩

/-- A rule is registered unless the table is strict and has a rival of it. -/
theorem register_cases (table : RuleTable) (rule : Rule) :
    (table.Admits .registered rule ∧ ∃ events, table.register rule = .ok (table.insert rule, events)) ∨
    (¬ table.Admits .registered rule ∧ ∃ failure, table.register rule = .error failure) := by
  have admits : table.Admits .registered rule ↔ (table.strict = true → table.rivals rule = []) := by
    rw [rivals_nil_iff]
    exact ⟨fun admitted => admitted rfl, fun admitted _ => admitted⟩
  rw [admits, register]
  cases table.strict <;> cases table.rivals rule <;> simp

end RuleTable

namespace Registration

/-- What a call makes of a table. -/
def ask (table : RuleTable) : Registration → Except Failure (RuleTable × List Event)
  | .register rule => table.register rule
  | .stray kind => .error (.invalid (.notARule kind))
  | .add spec => table.add spec
  | .keep filter => (table.keep filter).map fun table => (table, [])
  | .remove filter => (table.remove filter).map fun table => (table, [])

theorem run_ask (call : Registration) (w : Workbench) : call.run w = match call.ask w.table with
    | .ok (table, events) => .ok () { table, log := w.log ++ events }
    | .error failure => .error failure w := by
  have accepted (result : Except Failure (RuleTable × List Event)) :
      Workbench.accept result w = match result with
        | .ok (table, events) => .ok () { table, log := w.log ++ events }
        | .error failure => .error failure w := by
    rcases result with failure | ⟨table, events⟩ <;> rfl
  cases call with
  | stray kind => rfl
  | _ => exact accepted _

/-- What may come of a call: its rule is put where it belongs, or it fails. -/
inductive Outcome (call : Registration) (table : RuleTable) :
    Except Failure (RuleTable × List Event) → Prop where
  | put (place : Section) (rule : Rule) (events : List Event)
      (asked : call.rule? = some (place, rule)) (admitted : table.Admits place rule) :
      Outcome call table (.ok (table.put place rule, events))
  | refused (failure : Failure)
      (unfit : ∀ place rule, call.rule? = some (place, rule) → ¬ table.Admits place rule) :
      Outcome call table (.error failure)

theorem refused_unnamed (call : Registration) (table : RuleTable) (unnamed : call.rule? = none)
    (failure : Failure) : call.Outcome table (.error failure) :=
  .refused failure fun _ _ asked => by cases unnamed.symm.trans asked

theorem register_outcome (call : Registration) (table : RuleTable) (rule : Rule)
    (asked : call.rule? = some (.registered, rule)) : call.Outcome table (table.register rule) := by
  rcases table.register_cases rule with ⟨admitted, events, registered⟩ | ⟨refused, failure, fails⟩
  · rw [registered]
    exact .put .registered rule events asked admitted
  · rw [fails]
    refine .refused failure fun place other named => ?_
    cases asked.symm.trans named
    exact refused

theorem ask_outcome (call : Registration) (table : RuleTable) :
    call.Outcome table (call.ask table) := by
  cases call with
  | register rule => exact register_outcome _ table rule rfl
  | stray kind => exact refused_unnamed _ table rfl _
  | add spec =>
      rw [ask, RuleTable.add]
      cases made : Rule.make spec with
      | ok rule => exact register_outcome _ table rule (by rw [rule?, made]; rfl)
      | error failure => exact refused_unnamed _ table (by rw [rule?, made]; rfl) failure
  | keep spec =>
      rw [ask, RuleTable.keep]
      cases checked : spec.check "keep" with
      | ok filter =>
          exact .put .kept (Rule.keep filter) [] (by rw [rule?, checked]; rfl) nofun
      | error failure => exact refused_unnamed _ table (by rw [rule?, checked]; rfl) failure
  | remove spec =>
      rw [ask, RuleTable.remove]
      cases checked : spec.check "remove" with
      | ok filter =>
          exact .put .removed (Rule.remove filter) [] (by rw [rule?, checked]; rfl) nofun
      | error failure => exact refused_unnamed _ table (by rw [rule?, checked]; rfl) failure

end Registration

/-- A rule table at work with what was put into it, the oldest first. -/
structure Registered where
  workbench : Workbench
  accepted : List (Section × Rule) := []

namespace Registered

def table (h : Registered) : RuleTable := h.workbench.table

/-- A call, whatever comes of it. -/
def call (h : Registered) (call : Registration) : Registered :=
  match call.run h.workbench with
  | .ok _ w => { workbench := w, accepted := h.accepted ++ call.rule?.toList }
  | .error _ w => { h with workbench := w }

/-- The rules that were put into a section, the oldest first. -/
def rulesOf (h : Registered) (place : Section) : List Rule :=
  h.accepted.filterMap fun (other, rule) => if other = place then some rule else none

/-- What calls lead to from a new table on. -/
def after (priority : Priority) (strict : Bool) (builtins : List Rule)
    (calls : List Registration) : Registered :=
  calls.foldl call { workbench := { table := { priority, strict, builtins } } }

/-- The table holds what was put into it, section by section. -/
structure Kept (p : Priority) (s : Bool) (rules : List Rule) (h : Registered) : Prop where
  priority : h.table.priority = p
  strict : h.table.strict = s
  plugins : h.table.plugins = p.order (h.rulesOf .registered)
  builtins : h.table.builtins = rules
  kept : h.table.kept = (h.rulesOf .kept).reverse
  removed : h.table.removed = (h.rulesOf .removed).reverse ++ Rule.removals
  apart : s = true → h.table.plugins.Pairwise Rule.Apart

variable {priority : Priority} {strict : Bool} {builtins : List Rule}

theorem new_kept : (after priority strict builtins []).Kept priority strict builtins where
  priority := rfl
  strict := rfl
  plugins := by cases priority <;> rfl
  builtins := rfl
  kept := rfl
  removed := rfl
  apart := fun _ => .nil

theorem rules_of_put (h : Registered) (w : Workbench) (place other : Section) (rule : Rule) :
    rulesOf { workbench := w, accepted := h.accepted ++ [(place, rule)] } other =
      h.rulesOf other ++ if place = other then [rule] else [] := by
  by_cases same : place = other <;> simp [rulesOf, same]

theorem pairwise_insert (table : RuleTable) (rule : Rule)
    (apart : table.plugins.Pairwise Rule.Apart)
    (fresh : ∀ existing ∈ table.plugins, rule.Apart existing) :
    (table.insert rule).plugins.Pairwise Rule.Apart := by
  cases first : table.priority with
  | lastRegistered =>
      simp only [RuleTable.insert, first]
      exact List.pairwise_cons.mpr ⟨fresh, apart⟩
  | firstRegistered =>
      simp only [RuleTable.insert, first]
      refine List.pairwise_append.mpr ⟨apart, List.pairwise_singleton _ _, ?_⟩
      intro existing member other new
      cases List.mem_singleton.mp new
      exact Rule.apart_symm _ _ (fresh existing member)

theorem insert_sections (table : RuleTable) (rule : Rule) :
    (table.insert rule).priority = table.priority ∧ (table.insert rule).strict = table.strict ∧
    (table.insert rule).builtins = table.builtins ∧ (table.insert rule).kept = table.kept ∧
    (table.insert rule).removed = table.removed := by
  cases first : table.priority <;> simp only [RuleTable.insert, first, and_self]

theorem insert_plugins (table : RuleTable) (rules : List Rule) (rule : Rule)
    (plugins : table.plugins = table.priority.order rules) :
    (table.insert rule).plugins = table.priority.order (rules ++ [rule]) := by
  cases first : table.priority <;>
    simp [RuleTable.insert, first, plugins, Priority.order]

theorem put_kept (h : Registered) (kept : h.Kept priority strict builtins) (w : Workbench)
    (place : Section) (rule : Rule) (admitted : h.table.Admits place rule)
    (put : w.table = h.table.put place rule) :
    Kept priority strict builtins
      { workbench := w, accepted := h.accepted ++ [(place, rule)] } := by
  have rules := h.rules_of_put w place
  cases place with
  | registered =>
      obtain ⟨first, strictness, builtin, keeps, removes⟩ := insert_sections h.table rule
      have plugins := insert_plugins h.table _ rule (kept.priority.symm ▸ kept.plugins)
      exact {
        priority := by rw [table, put, RuleTable.put, first, kept.priority]
        strict := by rw [table, put, RuleTable.put, strictness, kept.strict]
        plugins := by rw [table, put, RuleTable.put, plugins, kept.priority, rules]; rfl
        builtins := by rw [table, put, RuleTable.put, builtin, kept.builtins]
        kept := by rw [table, put, RuleTable.put, keeps, kept.kept, rules]; simp
        removed := by rw [table, put, RuleTable.put, removes, kept.removed, rules]; simp
        apart := fun guarded => by
          rw [table, put]
          exact pairwise_insert h.table rule (kept.apart guarded)
            (admitted rfl (kept.strict.trans guarded)) }
  | kept =>
      exact {
        priority := by rw [table, put]; exact kept.priority
        strict := by rw [table, put]; exact kept.strict
        plugins := by rw [table, put, rules, if_neg nofun, List.append_nil]; exact kept.plugins
        builtins := by rw [table, put]; exact kept.builtins
        kept := by rw [table, put, RuleTable.put, rules, kept.kept]; simp
        removed := by rw [table, put, rules, if_neg nofun, List.append_nil]; exact kept.removed
        apart := by rw [table, put]; exact kept.apart }
  | removed =>
      exact {
        priority := by rw [table, put]; exact kept.priority
        strict := by rw [table, put]; exact kept.strict
        plugins := by rw [table, put, rules, if_neg nofun, List.append_nil]; exact kept.plugins
        builtins := by rw [table, put]; exact kept.builtins
        kept := by rw [table, put, rules, if_neg nofun, List.append_nil]; exact kept.kept
        removed := by rw [table, put, RuleTable.put, rules, kept.removed]; simp
        apart := by rw [table, put]; exact kept.apart }

theorem call_kept (h : Registered) (kept : h.Kept priority strict builtins) (call : Registration) :
    (h.call call).Kept priority strict builtins := by
  have outcome := call.ask_outcome h.workbench.table
  rw [Registered.call, Registration.run_ask]
  generalize call.ask h.workbench.table = result at outcome
  cases outcome with
  | refused => exact kept
  | put place rule events asked admitted =>
      simp only [asked, Option.toList_some]
      exact put_kept h kept _ place rule admitted rfl

theorem after_kept (calls : List Registration) :
    (after priority strict builtins calls).Kept priority strict builtins := by
  suffices run : ∀ h : Registered, h.Kept priority strict builtins →
      (calls.foldl call h).Kept priority strict builtins from run _ new_kept
  induction calls with
  | nil => exact fun h kept => kept
  | cons call calls ih => exact fun h kept => ih (h.call call) (h.call_kept kept call)

end Registered

/-- Drops the elements of one name, and suffers no other exclusive rule beside it. -/
def Rule.dropping (tag : String) : Rule := { Rule.remove (.tags [tag]) with exclusive := true }

end Downmark
