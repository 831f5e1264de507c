import Downmark.Failure
/-!
The log: what the library tells its caller on the way, as a list of events, each with a level and
a text.
-/

set_option autoImplicit false

namespace Downmark

inductive Level where
  | debug
  | info
  | warning
deriving DecidableEq, Repr

def Level.name : Level → String
  | .debug => "DEBUG"
  | .info => "INFO"
  | .warning => "WARNING"

/-- Timed pieces of work. -/
inductive Work where
  | parsing
  | rendering
deriving DecidableEq, Repr

def Work.title : Work → String
  | .parsing => "Parsing HTML"
  | .rendering => "Rendering Markdown"

inductive Event where
  | optionIgnored (key : String)
  | selectorIgnored (value : Value) (field : String)
  | optionInvalid (value : Value) (field : String) (used : Value)
  | labelRenamed (label fresh : String)
  | ruleRegistered (name : String)
  | ruleOverlap (name existing : String)
  | pluginApplied (name : String)
  | pluginRegistered (name : String)
  | pluginOverwritten (name : String)
  | pluginUnregistered (name : String)
  | registryCleared
  | entryDiscovered (name : String)
  | entryForeign (name : String)
  | entryFailed (name reason : String)
  | discoveryFailed (reason : String)
  | discoveryDone (count : Nat)
  | renderStarted (kind : String) (rules : Nat)
  | workDone (work : Work)
  | configSkipped (path : String)
  | configLoaded (count : Nat) (path : String)
  | configUsed (path : String)

namespace Event

def level : Event → Level
  | .optionInvalid .. | .pluginOverwritten _ => .warning
  | .entryForeign _ | .entryFailed .. | .discoveryFailed _ => .warning
  | .discoveryDone _ | .configUsed _ => .info
  | _ => .debug

def number (n : Nat) : String := String.ofList (Text.ofNat n)

/-- The text of an event. A duration is left open. -/
def message : Event → String
  | .optionIgnored key => "Ignoring unknown option '" ++ key ++ "'"
  | .selectorIgnored value field =>
    "Ignoring out-of-range selector " ++ value.quoted ++ " for " ++ field
  | .optionInvalid value field used =>
    "Invalid value " ++ value.quoted ++ " for option '" ++ field ++ "', using default "
      ++ used.quoted
  | .labelRenamed label fresh =>
    "Reference label '" ++ label ++ "' already used, renamed to '" ++ fresh ++ "'"
  | .ruleRegistered name => "Registered rule: " ++ name
  | .ruleOverlap name existing =>
    "Exclusive rule '" ++ name ++ "' overlaps '" ++ existing ++ "', priority policy decides"
  | .pluginApplied name => "Applied plugin: " ++ name
  | .pluginRegistered name => "Registered plugin: " ++ name
  | .pluginOverwritten name => "Plugin '" ++ name ++ "' already registered, overwriting"
  | .pluginUnregistered name => "Unregistered plugin: " ++ name
  | .registryCleared => "Cleared plugin registry"
  | .entryDiscovered name => "Discovered plugin from entry point: " ++ name
  | .entryForeign name => "Entry point '" ++ name ++ "' did not return PluginMetadata, skipping"
  | .entryFailed name reason =>
    "Failed to load plugin entry point '" ++ name ++ "': " ++ reason
  | .discoveryFailed reason => "Failed to discover plugins: " ++ reason
  | .discoveryDone count => "Discovered " ++ number count ++ " plugin(s) from entry points"
  | .renderStarted kind rules => "Rendering " ++ kind ++ " with " ++ number rules ++ " rules"
  | .workDone work => work.title ++ " completed in <TIME>s"
  | .configSkipped path => "Skipping unreadable " ++ path
  | .configLoaded count path => "Loaded " ++ number count ++ " option(s) from " ++ path
  | .configUsed path => "Using options file: " ++ path

end Event

/-- Events in the order in which they happened. -/
abbrev Log := List Event

/-- Work that may fail and that logs what it does; the log outlives a failure. -/
abbrev Logged := EStateM Failure Log

/-- Adds an event to the log. -/
def note (event : Event) : Logged Unit := modify (· ++ [event])

end Downmark
