import Downmark.Value.Basic
/-!
The style choices, one type for each dimension of style.

Each type lists its choices in order: the first is the default, and a choice may be named by its
position, counted from one.
-/

set_option autoImplicit false

namespace Downmark

inductive HeadingStyle where
  | atx
  | setext
deriving DecidableEq, Repr

inductive BreakMarker where
  | star
  | dash
  | underscore
deriving DecidableEq, Repr

inductive BulletMarker where
  | star
  | dash
  | plus
deriving DecidableEq, Repr

inductive CodeBlockStyle where
  | indented
  | fenced
deriving DecidableEq, Repr

inductive FenceMarker where
  | backtick
  | tilde
deriving DecidableEq, Repr

inductive EmDelimiter where
  | underscore
  | star
deriving DecidableEq, Repr

inductive StrongDelimiter where
  | stars
  | underscores
deriving DecidableEq, Repr

inductive LinkStyle where
  | inlined
  | referenced
deriving DecidableEq, Repr

inductive LabelStyle where
  | full
  | collapsed
  | shortcut
deriving DecidableEq, Repr

inductive LineBreak where
  | spaces
  | backslash
deriving DecidableEq, Repr

/-- A type of style choices, with the value that names each. -/
class Choice (α : Type) where
  all : List α
  value : α → Value

/-- The values of a type of choices, in order. -/
def Choice.values (α : Type) [Choice α] : List Value := (Choice.all (α := α)).map Choice.value

/-- The choice that a value names exactly. -/
def Choice.ofValue? {α : Type} [Choice α] (v : Value) : Option α :=
  Choice.all.find? fun choice => Choice.value choice == v

instance : Choice HeadingStyle where
  all := [.atx, .setext]
  value
    | .atx => .str "atx"
    | .setext => .str "setext"

instance : Choice BreakMarker where
  all := [.star, .dash, .underscore]
  value
    | .star => .str "*"
    | .dash => .str "-"
    | .underscore => .str "_"

instance : Choice BulletMarker where
  all := [.star, .dash, .plus]
  value
    | .star => .str "*"
    | .dash => .str "-"
    | .plus => .str "+"

instance : Choice CodeBlockStyle where
  all := [.indented, .fenced]
  value
    | .indented => .str "indented"
    | .fenced => .str "fenced"

instance : Choice FenceMarker where
  all := [.backtick, .tilde]
  value
    | .backtick => .str "`"
    | .tilde => .str "~"

instance : Choice EmDelimiter where
  all := [.underscore, .star]
  value
    | .underscore => .str "_"
    | .star => .str "*"

instance : Choice StrongDelimiter where
  all := [.stars, .underscores]
  value
    | .stars => .str "**"
    | .underscores => .str "__"

instance : Choice LinkStyle where
  all := [.inlined, .referenced]
  value
    | .inlined => .str "inlined"
    | .referenced => .str "referenced"

instance : Choice LabelStyle where
  all := [.full, .collapsed, .shortcut]
  value
    | .full => .str "full"
    | .collapsed => .str "collapsed"
    | .shortcut => .str "shortcut"

instance : Choice Bool where
  all := [false, true]
  value := .bool

instance : Choice LineBreak where
  all := [.spaces, .backslash]
  value
    | .spaces => .str "  "
    | .backslash => .str "\\"

/-- The character of a thematic break. -/
def BreakMarker.char : BreakMarker → Char
  | .star => '*'
  | .dash => '-'
  | .underscore => '_'

/-- The character of a bullet. -/
def BulletMarker.char : BulletMarker → Char
  | .star => '*'
  | .dash => '-'
  | .plus => '+'

/-- The character of a code fence. -/
def FenceMarker.char : FenceMarker → Char
  | .backtick => '`'
  | .tilde => '~'

/-- The text of an emphasis delimiter. -/
def EmDelimiter.text : EmDelimiter → Chars
  | .underscore => ['_']
  | .star => ['*']

/-- The text of a strong delimiter. -/
def StrongDelimiter.text : StrongDelimiter → Chars
  | .stars => ['*', '*']
  | .underscores => ['_', '_']

/-- What is written before the newline of a hard line break. -/
def LineBreak.text : LineBreak → Chars
  | .spaces => [' ', ' ']
  | .backslash => ['\\']

end Downmark
