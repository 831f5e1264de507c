import Downmark.Value.Basic
import Downmark.Config.ReadError
/-!
What can go wrong, by cause, and the words for it.
-/

set_option autoImplicit false

namespace Downmark

/-- Flaws of a document that cannot be rendered. -/
inductive Malformed where
  /-- An element without a name. -/
  | nameless
  /-- A text or comment node that holds something other than text. -/
  | data (holder : String) (found : Value)
  /-- A child that is no node. -/
  | stray (found : Value)
  /-- Something of this kind cannot be the root of a rendering. -/
  | unrenderable (kind : String)
  /-- Something of this kind cannot be read as a parsed document. -/
  | unreadable (kind : String)

/-- The kind of the flawed thing. -/
def Malformed.culprit : Malformed → String
  | .nameless => "Element"
  | .data holder _ => holder
  | .stray found => found.kind
  | .unrenderable kind => kind
  | .unreadable kind => kind

def Malformed.message : Malformed → String
  | .nameless => "Element is missing a tag name"
  | .data holder found => holder ++ " data must be a string, got " ++ found.kind
  | .stray found => "Unexpected node of type " ++ found.kind
  | .unrenderable kind => "Cannot render object of type " ++ kind
  | .unreadable kind => "Unsupported parser node type: " ++ kind

/-- Arguments that do not fit their parameter. -/
inductive Invalid where
  | choice (field : String) (found : Value) (choices : List Value)
  | ruleName
  | ruleReplacement (rule : String)
  | ruleFilter (rule : String)
  | notARule (kind : String)
  | priority (found : Value) (choices : List Value)
  | pluginName
  | pluginCode (plugin : String)
  /-- Something, shown in this way, that is no document. -/
  | notADocument (shown : String)

/-- The parameter that the argument was given for. -/
def Invalid.parameter : Invalid → String
  | .choice field _ _ => field
  | .ruleName => "name"
  | .ruleReplacement _ => "replacement"
  | .ruleFilter _ => "filter"
  | .notARule _ => "rule"
  | .priority _ _ => "priority"
  | .pluginName => "name"
  | .pluginCode _ => "plugin"
  | .notADocument _ => "html_input"

def Invalid.message : Invalid → String
  | .choice field found choices =>
    "Invalid value for " ++ field ++ ": " ++ found.quoted ++ ". Expected one of "
      ++ (Value.list choices).quoted
  | .ruleName => "Rule name cannot be empty"
  | .ruleReplacement rule => "Rule '" ++ rule ++ "' replacement must be callable"
  | .ruleFilter rule =>
    "Rule '" ++ rule ++ "' filter must be a tag name, a collection of tag names, or a predicate"
  | .notARule kind => "Expected a Rule, got " ++ kind
  | .priority found choices =>
    "Unknown rule priority policy " ++ found.quoted ++ ". Expected one of "
      ++ (Value.list choices).quoted
  | .pluginName => "Plugin name cannot be empty"
  | .pluginCode plugin => "Plugin '" ++ plugin ++ "' must be callable"
  | .notADocument shown =>
    shown ++ " is not a string, a BeautifulSoup tree or a document node"

/-- Formats of options files. -/
inductive FileFormat where
  | toml
  | yaml
  | json
deriving DecidableEq, Repr

/-- Flaws of an options file. -/
inductive Misconfigured where
  | missing (path : String)
  | unsupported (suffix : String)
  | notMapping (path kind : String)
  | sectionNotTable (path kind : String)
  /-- The text of the file does not follow its format. -/
  | unreadable (format : FileFormat) (path : String)

def Misconfigured.message : Misconfigured → String
  | .missing path => "Options file not found: " ++ path
  | .unsupported suffix => "Unsupported options file format: " ++ suffix
  | .notMapping path kind => "Options file " ++ path ++ " must contain a mapping, got " ++ kind
  | .sectionNotTable path kind =>
    "[tool.markturn] section in " ++ path ++ " must be a table, got " ++ kind
  | .unreadable _ path => "Invalid options file " ++ path

/-- The kinds of failure that a caller's own function may signal. -/
inductive Signal where
  | value
  | runtime
  | key
  | plugin
  | validation
  | malformed
deriving DecidableEq, Repr

/-- The name of a kind of failure. -/
def Signal.name : Signal → String
  | .value => "ValueError"
  | .runtime => "RuntimeError"
  | .key => "KeyError"
  | .plugin => "PluginError"
  | .validation => "ValidationError"
  | .malformed => "MalformedInputError"

/-- The two halves of a conversion. -/
inductive Stage where
  | parsing
  | rendering
deriving DecidableEq, Repr

def Stage.name : Stage → String
  | .parsing => "parsing"
  | .rendering => "rendering"

/-- Everything that can go wrong. -/
inductive Failure where
  | malformed (why : Malformed)
  | invalid (why : Invalid)
  /-- Two exclusive rules claim the same tags, or no tags by name. -/
  | conflict (rule existing : String) (tags : Option (List String))
  | unknownPlugin (name : String) (available : List String)
  /-- A value of this kind is no plugin. -/
  | notAPlugin (kind : String)
  | pluginFailed (name : String) (cause : Failure)
  | conversion (stage : Stage) (cause : Failure)
  | misconfigured (why : Misconfigured)
  /-- A file that follows its format holds something that is no value. -/
  | unread (why : ReadError)
  /-- A number would have to be written that has more digits than are ever written. -/
  | tooManyDigits
  /-- A caller's own function signals a failure. -/
  | signal (kind : Signal) (text : String)
  /-- A digit that is no decimal digit stands where a number is needed. -/
  | notANumber
  /-- No option has this name. -/
  | unknownField (name : String)
  /-- A text file that is not UTF-8. -/
  | notUtf8
  /-- A mapping is needed to look further, and a value of this kind was found. -/
  | notATable (kind : String)
  /-- A code block without the code element that makes it one. -/
  | missingCode
  /-- An element is left while no indentation is open. -/
  | noIndentation

namespace Failure

/-- Claimed tags as a message lists them. -/
def claimed : Option (List String) → String
  | none => "the same elements"
  | some tags => ", ".intercalate tags

/-- What is said of a number with more digits than are ever written. -/
def tooManyDigitsText : String :=
  "Exceeds the limit (4300 digits) for integer string conversion; "
    ++ "use sys.set_int_max_str_digits() to increase the limit"

/-- A failure with its kind, as one failure tells of another. -/
def signature : Failure → String
  | .signal kind text => kind.name ++ "(" ++ (Value.str text).quoted ++ ")"
  | .missingCode => "AssertionError()"
  | .noIndentation => "IndexError('pop from empty list')"
  | .notANumber => "ValueError('a digit that is no decimal digit')"
  | .tooManyDigits => "ValueError(" ++ (Value.str tooManyDigitsText).quoted ++ ")"
  | _ => ""

/-- The text of a failure. -/
def message : Failure → String
  | .malformed why => why.message
  | .invalid why => why.message
  | .conflict rule existing tags =>
    "Rule '" ++ rule ++ "' conflicts with exclusive rule '" ++ existing ++ "' over " ++ claimed tags
  | .unknownPlugin name available =>
    "Plugin '" ++ name ++ "' not registered. Available plugins: "
      ++ (if available.isEmpty then "none" else ", ".intercalate available)
  | .notAPlugin kind => "Cannot use " ++ kind ++ " as a plugin"
  | .pluginFailed name cause => "Plugin '" ++ name ++ "' failed: " ++ cause.message
  | .conversion _ cause => "HTML to Markdown conversion failed: " ++ cause.signature
  | .misconfigured why => why.message
  | .unread _ => "no value"
  | .tooManyDigits => tooManyDigitsText
  | .signal kind text => if kind == .key then (Value.str text).quoted else text
  | .notANumber => "a digit that is no decimal digit"
  | .unknownField name => "no option is named '" ++ name ++ "'"
  | .notUtf8 => "not UTF-8"
  | .notATable kind => "'" ++ kind ++ "' object has no attribute 'get'"
  | .missingCode => ""
  | .noIndentation => "pop from empty list"

/-- Whether a failure is one of the library's own kinds, which are passed on as they are. -/
def isOwn : Failure → Bool
  | .signal kind _ => kind == .plugin || kind == .validation || kind == .malformed
  | .unread _ | .tooManyDigits | .notANumber | .unknownField _ | .notUtf8 | .notATable _ => false
  | .missingCode | .noIndentation => false
  | _ => true

/-- Whether a failure is about a plugin. -/
def isPlugin : Failure → Bool
  | .unknownPlugin .. | .notAPlugin _ | .pluginFailed .. => true
  | .signal kind _ => kind == .plugin
  | _ => false

end Failure

end Downmark
