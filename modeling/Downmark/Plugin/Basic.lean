import Downmark.Rule.Table
/-!
Plugins: named pieces of work on a rule table.

A plugin that fails has done what it did up to there; its failure is passed on if it is about a
plugin already, and else wrapped into one that is.
-/

set_option autoImplicit false

namespace Downmark

/-- What a plugin works on. -/
structure Workbench where
  table : RuleTable := {}
  log : Log := []

/-- Work on a rule table. -/
abbrev PluginCode := EStateM Failure Workbench Unit

namespace Workbench

/-- Takes over what a registration gave. -/
def accept (result : Except Failure (RuleTable × List Event)) : PluginCode := do
  match result with
  | .ok (table, events) => modify fun w => { table, log := w.log ++ events }
  | .error failure => throw failure

/-- Registers a rule. -/
def register (rule : Rule) : PluginCode := do
  let w ← get
  accept (w.table.register rule)

/-- Registers a rule that a specification describes. -/
def add (spec : RuleSpec) : PluginCode := do
  let w ← get
  accept (w.table.add spec)

def keep (filter : FilterSpec) : PluginCode := do
  let w ← get
  accept ((w.table.keep filter).map fun table => (table, []))

def remove (filter : FilterSpec) : PluginCode := do
  let w ← get
  accept ((w.table.remove filter).map fun table => (table, []))

end Workbench

/-- A plugin with what is told about it. -/
structure Plugin where
  name : String
  description : String := ""
  code : PluginCode
  version : String := "1.0.0"
  author : Option String := none
  tags : List String := []
  /-- One of the plugins that come with the library; there is one of each. -/
  isBundled : Bool := false

namespace Plugin

/-- A plugin, if it has a name and something to run. -/
def make (name description version : String) (author : Option String) (tags : List String)
    (code : Option PluginCode) : Except Failure Plugin :=
  if name.isEmpty then .error (.invalid .pluginName)
  else match code with
    | none => .error (.invalid (.pluginCode name))
    | some code => .ok { name, description, code, version, author, tags }

/-- Whether two plugins are one and the same, and not only of the same name. -/
def isSame (a b : Plugin) : Bool := a.isBundled && b.isBundled && a.name == b.name

/-- Runs a plugin. -/
def apply (p : Plugin) : PluginCode := fun w =>
  match p.code w with
  | .ok _ w => .ok () { w with log := w.log ++ [.pluginApplied p.name] }
  | .error failure w =>
    .error (if failure.isPlugin then failure else .pluginFailed p.name failure) w

end Plugin

end Downmark
