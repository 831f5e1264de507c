import Downmark.Plugin.Registry
import Downmark.Options.Resolve
import Downmark.Render.Walk
import Downmark.Html.Builder
/-!
Converting HTML to Markdown: a converter has options and a rule table, takes plugins, and turns
markup or trees into Markdown.
-/

set_option autoImplicit false

namespace Downmark

/-- What is given to a converter. -/
inductive Source where
  | markup (s : Chars)
  /-- A document, or one of its elements, that was parsed elsewhere. -/
  | parsed (tree : Tree)
  | draft (d : Draft)
  /-- Something that is no document at all. -/
  | value (v : Value)

/-- The word for the kind of a source in messages. -/
def Source.kind : Source → String
  | .markup _ => "str"
  | .parsed (.document ..) => "BeautifulSoup"
  | .parsed _ => "Tag"
  | .draft d => d.kind
  | .value v => v.kind

/-- What is used as a plugin. -/
inductive PluginRef where
  /-- A registered plugin. -/
  | named (name : String)
  | plugin (p : Plugin)
  /-- Bare code with a name of its own. -/
  | code (name : String) (run : PluginCode)
  | many (items : List PluginRef)
  /-- A value of some kind that is no plugin. -/
  | unusable (kind : String)

/-- A converter at work: the registry in which plugins are looked up, the rules, and the log. -/
structure Session where
  registry : Registry := .initial
  options : Options := {}
  table : RuleTable := {}
  log : Log := []

/-- Work of a converter. -/
abbrev Converting := EStateM Failure Session

namespace Session

/-- Adds events to the log. -/
def note (events : List Event) : Converting Unit :=
  modify fun s => { s with log := s.log ++ events }

/-- Work that only logs. -/
def logged {α : Type} (work : Logged α) : Converting α := fun s =>
  match work s.log with
  | .ok a log => .ok a { s with log }
  | .error failure log => .error failure { s with log }

/-- Work on the rule table. -/
def onTable (work : PluginCode) : Converting Unit := fun s =>
  match work { table := s.table, log := s.log } with
  | .ok _ w => .ok () { s with table := w.table, log := w.log }
  | .error failure w => .error failure { s with table := w.table, log := w.log }

/-- Does the discovery of plugins if it has not been done yet. -/
def discoverOnce : Converting Unit := modify fun s =>
  let (registry, events) := s.registry.discoverOnce
  { s with registry, log := s.log ++ events }

/-- Sets the options to what some raw options say. -/
def configure (start : Options) (raw overrides : RawOptions) : Converting Unit := do
  let options ← logged (Options.resolve start raw overrides)
  modify fun s => { s with options }

mutual

/-- Uses a plugin, or several. -/
def use : PluginRef → Converting Unit
  | .named name => do
    discoverOnce
    let s ← get
    match s.registry.get name with
    | .ok p => onTable p.apply
    | .error failure => throw failure
  | .plugin p => onTable p.apply
  | .code name run =>
    match Plugin.make name "" "1.0.0" none [] (some run) with
    | .ok p => onTable p.apply
    | .error failure => throw failure
  | .many items => useAll items
  | .unusable kind => throw (.notAPlugin kind)

def useAll : List PluginRef → Converting Unit
  | [] => pure ()
  | item :: rest => do
    use item
    useAll rest

end

/-- Renders within a conversion, the log going on. -/
def rendering {α : Type} (work : RuleTable → Options → Rendering α) : Converting α := fun s =>
  match work s.table s.options { log := s.log } with
  | .ok a state => .ok a { s with log := state.log }
  | .error failure state => .error failure { s with log := state.log }

/-- How something that is no document is shown. -/
def shown : Draft → String
  | .comment data => "Comment(data=" ++ data.quoted ++ ")"
  | .stray value => value.quoted
  | d => d.kind

/-- The tree that a source describes. -/
def toDraft : Source → Except Failure Draft
  | .markup s => .ok (.ofTree (Html.read s))
  | .parsed tree => .ok (.ofTree tree)
  | .draft d => if Render.isRoot d then .ok d else .error (.invalid (.notADocument (shown d)))
  | .value v => .error (.invalid (.notADocument v.quoted))

/-- A failure as a conversion passes it on: one of the library's own kinds as it is, any other with
the stage in which it arose. -/
def staged {α : Type} (stage : Stage) (work : Converting α) : Converting α := fun s =>
  match work s with
  | .ok a s => .ok a s
  | .error failure s => .error (if failure.isOwn then failure else .conversion stage failure) s

/-- The Markdown of a source. -/
def convert (source : Source) : Converting Chars := do
  let d ← staged .parsing (do
    match toDraft source with
    | .ok d => do
      note [.workDone .parsing]
      pure d
    | .error failure => throw failure)
  staged .rendering (do
    let output ← rendering fun table o => Render.draft table o d
    note [.workDone .rendering]
    pure output)

/-- The Markdown of a node that stands in a larger tree. -/
def convertSite (site : Site) : Converting Chars := do
  note [.workDone .parsing]
  staged .rendering (do
    let output ← rendering fun table o => Render.site table o site
    note [.workDone .rendering]
    pure output)

/-- The Markdown of a source that is rendered as it is, nothing being parsed. -/
def render (source : Source) : Converting Chars :=
  match source with
  | .draft d => rendering fun table o => Render.draft table o d
  | other => throw (.malformed (.unrenderable other.kind))

end Session

/-- Converts one source with some options and plugins. -/
def convertOnce (source : Source) (raw overrides : RawOptions)
    (plugins : Option PluginRef) : Converting Chars := do
  Session.configure {} raw overrides
  match plugins with
  | some ref => Session.use ref
  | none => pure ()
  Session.convert source

end Downmark
