import Downmark.Value.Double
import Downmark.Value.Moment
import Downmark.Entries
import Downmark.Text.Quoted
/-!
Values as options files and callers hand them over before anybody has looked at them: null,
truth values, numbers, strings, dates and times, lists and mappings.

Main statement: the comparison of values is exact, so equality of values is decidable.
-/

set_option autoImplicit false

namespace Downmark

/-- A value without parts; these are also what the keys of mappings are. -/
inductive Scalar where
  | null
  | bool (b : Bool)
  | int (n : Int)
  | float (x : Double)
  | str (s : String)
  | moment (m : Moment)
deriving DecidableEq, Repr, Inhabited

/-- A value of unknown kind. -/
inductive Value where
  | scalar (s : Scalar)
  | list (items : List Value)
  | dict (entries : List (Scalar × Value))
deriving Repr, Inhabited

namespace Value

@[match_pattern] abbrev null : Value := .scalar .null
@[match_pattern] abbrev bool (b : Bool) : Value := .scalar (.bool b)
@[match_pattern] abbrev int (n : Int) : Value := .scalar (.int n)
@[match_pattern] abbrev float (x : Double) : Value := .scalar (.float x)
@[match_pattern] abbrev str (s : String) : Value := .scalar (.str s)

/-- The mapping with names for keys. -/
def named (entries : List (String × Value)) : Value := .dict (entries.map fun e => (.str e.1, e.2))

/-- What a mapping holds under a name. -/
def entry? (name : String) : Value → Option Value
  | .dict entries => entries.lookup (.str name)
  | _ => none

mutual

/-- Whether two values are the same, kind included. -/
def same : Value → Value → Bool
  | .scalar a, .scalar b => a == b
  | .list a, .list b => sameItems a b
  | .dict a, .dict b => sameEntries a b
  | _, _ => false

def sameItems : List Value → List Value → Bool
  | [], [] => true
  | v :: rest, w :: more => same v w && sameItems rest more
  | _, _ => false

def sameEntries : List (Scalar × Value) → List (Scalar × Value) → Bool
  | [], [] => true
  | (k, v) :: rest, (l, w) :: more => k == l && same v w && sameEntries rest more
  | _, _ => false

end

mutual

theorem same_iff (a b : Value) : same a b = true ↔ a = b := by
  cases a <;> cases b <;> simp [same, same_items_iff, same_entries_iff]

theorem same_items_iff (a b : List Value) : sameItems a b = true ↔ a = b := by
  cases a <;> cases b <;> simp [sameItems, same_iff, same_items_iff]

theorem same_entries_iff (a b : List (Scalar × Value)) : sameEntries a b = true ↔ a = b := by
  match a, b with
  | [], [] => simp [sameEntries]
  | [], _ :: _ => simp [sameEntries]
  | _ :: _, [] => simp [sameEntries]
  | (k, v) :: rest, (l, w) :: more =>
    simp [sameEntries, same_iff v w, same_entries_iff rest more, Prod.ext_iff]

end

instance : DecidableEq Value := fun a b => decidable_of_iff (same a b = true) (same_iff a b)

end Value

namespace Scalar

/-- The word for the kind of a scalar in messages. -/
def kind : Scalar → String
  | .null => "NoneType"
  | .bool _ => "bool"
  | .int _ => "int"
  | .float _ => "float"
  | .str _ => "str"
  | .moment m => m.kind

/-- A scalar as plain text. -/
def text : Scalar → Chars
  | .null => "None".toList
  | .bool true => "True".toList
  | .bool false => "False".toList
  | .int n => Text.ofInt n
  | .float x => x.text
  | .str s => s.toList
  | .moment m => m.text

/-- A scalar as it is shown in messages. -/
def shown : Scalar → Chars
  | .str s => Text.quoted s.toList
  | .moment m => m.shown
  | s => s.text

/-- Whether a number has more digits than are ever written. -/
def isEndless : Scalar → Bool
  | .int n => Nat.pow 10 Text.maxIntegerDigits ≤ n.natAbs
  | _ => false

/-- Whether a scalar is an empty text, zero, false or null. -/
def isEmpty : Scalar → Bool
  | .null => true
  | .bool b => !b
  | .int n => n == 0
  | .float (.finite _ digits _) => digits == 0
  | .float _ => false
  | .str s => s.isEmpty
  | .moment _ => false

/-- The number that a scalar counts as in comparisons: digits and exponent of ten. -/
def number? : Scalar → Option (Int × Int)
  | .bool b => some (if b then 1 else 0, 0)
  | .int n => some (n, 0)
  | .float (.finite negative digits exponent) =>
    some (if negative then -(digits : Int) else digits, exponent)
  | _ => none

/-- Equality of numbers given by digits and exponent of ten. -/
def sameNumber (a b : Int × Int) : Bool :=
  let low := min a.2 b.2
  a.1 * Nat.pow 10 (a.2 - low).toNat == b.1 * Nat.pow 10 (b.2 - low).toNat

/-- Equality of scalars, numbers and truth values compared by size. -/
def agrees (a b : Scalar) : Bool :=
  match a.number?, b.number? with
  | some x, some y => sameNumber x y
  | none, none => a == b
  | _, _ => false

end Scalar

namespace Value

/-- The word for the kind of a value in messages. -/
def kind : Value → String
  | .scalar s => s.kind
  | .list _ => "list"
  | .dict _ => "dict"

def separator : Chars := [',', ' ']

mutual

/-- A value as it is shown in messages. -/
def shown : Value → Chars
  | .scalar s => s.shown
  | .list items => '[' :: separator.intercalate (shownItems items) ++ [']']
  | .dict entries => '\x7b' :: separator.intercalate (shownEntries entries) ++ ['\x7d']

def shownItems : List Value → List Chars
  | [] => []
  | v :: rest => shown v :: shownItems rest

def shownEntries : List (Scalar × Value) → List Chars
  | [] => []
  | (k, v) :: rest => (k.shown ++ ':' :: ' ' :: shown v) :: shownEntries rest

end

/-- A value as it is shown in messages. -/
def quoted (v : Value) : String := String.ofList v.shown

mutual

/-- Whether a value holds a number with more digits than are ever written. -/
def isEndless : Value → Bool
  | .scalar s => s.isEndless
  | .list items => someEndless items
  | .dict entries => someEntryEndless entries

def someEndless : List Value → Bool
  | [] => false
  | v :: rest => isEndless v || someEndless rest

def someEntryEndless : List (Scalar × Value) → Bool
  | [] => false
  | (k, v) :: rest => k.isEndless || isEndless v || someEntryEndless rest

end

/-- Whether a value is a mapping without entries, an empty list or text, zero, false or null. -/
def isEmpty : Value → Bool
  | .scalar s => s.isEmpty
  | .list items => items.isEmpty
  | .dict entries => entries.isEmpty

/-- Equality of a scalar with a value, numbers and truth values compared by size. -/
def agrees : Value → Value → Bool
  | .scalar a, .scalar b => a.agrees b
  | a, b => a == b

end Value

end Downmark
