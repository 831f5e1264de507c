import Downmark.Text.Case
import Downmark.Text.Integer
import Downmark.Text.Blank
/-!
Link definitions that are written once, after the document, while the text refers to them by
label. Labels are the same if they differ in case and white space only.
-/

set_option autoImplicit false

namespace Downmark.Reference

/-- A link definition. -/
structure Link where
  label : Chars
  url : Chars
  title : Option Chars := none
deriving DecidableEq, Repr

/-- A title between quotes, with the space before it. A missing or empty title leaves nothing. -/
def titleSuffix : Option Chars → Chars
  | none => []
  | some [] => []
  | some title => ' ' :: '"' :: Text.replaceChar '"' ['\\', '"'] title ++ ['"']

/-- A definition as a line of Markdown. -/
def Link.toMarkdown (link : Link) : Chars :=
  let destination :=
    if link.url.contains ' ' || link.url.isEmpty then '<' :: link.url ++ ['>'] else link.url
  '[' :: link.label ++ [']', ':', ' '] ++ destination ++ titleSuffix link.title

/-- What labels are compared by. -/
def labelKey (label : Chars) : Chars := Text.fold (Text.oneSpaced label)

/-- Definitions collected so far, in the order of their first use. -/
structure Collector where
  /-- The definitions, each with the key of its label. -/
  links : List (Chars × Link) := []
  /-- The labels of numbered targets. -/
  numbers : List ((Chars × Option Chars) × Chars) := []
  nextNumber : Nat := 1
deriving Repr

/-- What became of a request for a label. -/
inductive Added where
  /-- The target is already defined under this label. -/
  | reused (label : Chars)
  /-- A new definition under the label that was asked for. -/
  | asAsked (label : Chars)
  /-- A new definition under another label, since the one asked for was taken. -/
  | renamed (label : Chars)

def Added.label : Added → Chars
  | .reused label => label
  | .asAsked label => label
  | .renamed label => label

namespace Collector

/-- The definition of a label. -/
def find? (c : Collector) (label : Chars) : Option Link := c.links.lookup (labelKey label)

/-- The labels that are tried in turn for a new definition: the label asked for, then the label with
a number, from two on. -/
def candidate (label : Chars) (n : Nat) : Chars :=
  if n == 0 then label else label ++ ' ' :: Text.ofNat (n + 1)

/-- Whether a definition of a label to a target may be written here. -/
def fits (c : Collector) (url : Chars) (title : Option Chars) (label : Chars) : Bool :=
  match c.find? label with
  | none => true
  | some link => link.url == url && link.title == title

/-- The first candidate that is free or already leads to the target. One of the first `n + 1`
candidates is, if there are `n` definitions, since no two candidates are the same label. -/
def choose (c : Collector) (label url : Chars) (title : Option Chars) : Nat :=
  ((List.range (c.links.length + 1)).find? fun n => c.fits url title (candidate label n)).getD 0

/-- Stores a definition. -/
def push (c : Collector) (link : Link) : Collector :=
  { c with links := c.links ++ [(labelKey link.label, link)] }

/-- Asks for a label to a target. -/
def add (c : Collector) (label url : Chars) (title : Option Chars) : Added × Collector :=
  let n := c.choose label url title
  let fresh := candidate label n
  match c.find? fresh with
  | some link => (.reused link.label, c)
  | none =>
    (if n == 0 then .asAsked fresh else .renamed fresh, c.push { label := fresh, url, title })

/-- The first number, counted from the next one, that is not in use as a label. -/
def freeNumber (c : Collector) : Nat :=
  ((List.range (c.links.length + 1)).find? fun n =>
    (c.find? (Text.ofNat (c.nextNumber + n))).isNone).getD 0 + c.nextNumber

/-- Issues the next number that is not in use as a label. -/
def issueNumber (c : Collector) : Chars × Collector :=
  let n := c.freeNumber
  (Text.ofNat n, { c with nextNumber := n + 1 })

/-- Asks for a number for a target. The same target keeps the number it was first given. -/
def addNumbered (c : Collector) (url : Chars) (title : Option Chars) : Added × Collector :=
  match c.numbers.lookup (url, title) with
  | some label => (.reused label, c)
  | none =>
    let (number, c) := c.issueNumber
    let (added, c) := c.add number url title
    (added, { c with numbers := c.numbers ++ [((url, title), added.label)] })

/-- The definitions as lines of Markdown. -/
def toMarkdown (c : Collector) : Chars :=
  Text.unlines (c.links.map fun entry => entry.2.toMarkdown)

/-- Writes all definitions and starts over. -/
def flush (c : Collector) : Chars × Collector := (c.toMarkdown, {})

def isEmpty (c : Collector) : Bool := c.links.isEmpty

/-- The definitions in order. -/
def toList (c : Collector) : List Link := c.links.map (·.2)

end Collector

end Downmark.Reference
