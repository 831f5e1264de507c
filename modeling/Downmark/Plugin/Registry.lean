import Downmark.Gfm.Plugins
/-!
The registry: plugins by name, and the entry points from which more are discovered on the first
look-up.
-/

set_option autoImplicit false

namespace Downmark

/-- What an entry point gives when it is loaded. -/
inductive Loaded where
  | plugin (p : Plugin)
  /-- Something that is no plugin. -/
  | other
  | failed (reason : String)

structure EntryPoint where
  name : String
  group : String
  load : Loaded

/-- The entry points of all installed packages. -/
inductive EntryPoints where
  | listed (entries : List EntryPoint)
  /-- They cannot be listed. -/
  | broken (reason : String)

namespace EntryPoints

/-- The group in which plugins are looked for. -/
def pluginGroup : String := "markturn.plugins"

/-- The entry points of the bundled plugins, by name. -/
def bundled : EntryPoints :=
  let sorted := Gfm.bundled.mergeSort fun a b => !(b.name < a.name)
  .listed (sorted.map fun p => { name := p.name, group := pluginGroup, load := .plugin p })

end EntryPoints

structure Registry where
  /-- Registered plugins in the order of their first registration. -/
  plugins : List (String × Plugin) := []
  /-- Discovery has been done. -/
  isInitialized : Bool := false
  entryPoints : EntryPoints := .bundled

namespace Registry

/-- Registers a plugin. One that is registered under its name already is replaced, unless it is the
same one. -/
def register (r : Registry) (p : Plugin) : Registry × List Event :=
  match r.plugins.lookup p.name with
  | some existing =>
    if existing.isSame p then (r, [])
    else
      ({ r with plugins := putEntry p.name p r.plugins },
        [.pluginOverwritten p.name, .pluginRegistered p.name])
  | none => ({ r with plugins := putEntry p.name p r.plugins }, [.pluginRegistered p.name])

/-- Registers some plugins, one after the other. -/
def registerAll : List Plugin → Registry → Registry × List Event
  | [], r => (r, [])
  | p :: rest, r =>
    let (r, events) := r.register p
    let (r, more) := registerAll rest r
    (r, events ++ more)

/-- The registry with the bundled plugins, before any discovery. -/
def initial : Registry := (registerAll Gfm.bundled {}).1

/-- Removes a plugin, if there is one of that name. -/
def unregister (r : Registry) (name : String) : Bool × Registry × List Event :=
  if (r.plugins.lookup name).isSome then
    (true, { r with plugins := r.plugins.filter fun entry => entry.1 != name },
      [.pluginUnregistered name])
  else (false, r, [])

/-- Removes all plugins and forgets that discovery was done. -/
def clear (r : Registry) : Registry × List Event :=
  ({ r with plugins := [], isInitialized := false }, [.registryCleared])

/-- Loads some entry points: how many gave a plugin. -/
def loadAll : List EntryPoint → Registry → Nat × Registry × List Event
  | [], r => (0, r, [])
  | entry :: rest, r =>
    let (found, r, events) : Nat × Registry × List Event :=
      match entry.load with
      | .plugin p =>
        let (r, events) := r.register p
        (1, r, events ++ [.entryDiscovered entry.name])
      | .other => (0, r, [.entryForeign entry.name])
      | .failed reason => (0, r, [.entryFailed entry.name reason])
    let (count, r, more) := loadAll rest r
    (found + count, r, events ++ more)

/-- Registers all plugins that entry points give: how many there were. -/
def discover (r : Registry) : Nat × Registry × List Event :=
  match r.entryPoints with
  | .broken reason => (0, r, [.discoveryFailed reason, .discoveryDone 0])
  | .listed entries =>
    let (count, r, events) :=
      loadAll (entries.filter fun entry => entry.group == EntryPoints.pluginGroup) r
    (count, r, events ++ [.discoveryDone count])

/-- Does the discovery if it has not been done yet. -/
def discoverOnce (r : Registry) : Registry × List Event :=
  if r.isInitialized then (r, [])
  else (discover { r with isInitialized := true }).2

/-- The names of all plugins, sorted. -/
def names (r : Registry) : List String := RuleTable.sortedNames (r.plugins.map (·.1))

/-- Looks a plugin up. -/
def get (r : Registry) (name : String) : Except Failure Plugin :=
  match r.plugins.lookup name with
  | some p => .ok p
  | none => .error (.unknownPlugin name r.names)

def has (r : Registry) (name : String) : Bool := (r.plugins.lookup name).isSome

/-- The names of the plugins that carry one of some tags, or of all plugins, sorted. -/
def list (r : Registry) (tags : Option (List String)) : List String :=
  match tags with
  | none => r.names
  | some tags =>
    RuleTable.sortedNames
      ((r.plugins.filter fun entry => tags.any entry.2.tags.contains).map (·.1))

end Registry

end Downmark
