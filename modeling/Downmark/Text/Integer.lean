import Downmark.Text.Blank
import Downmark.Text.Classes
/-!
Whole numbers as people write them: white space around, a sign, decimal digits of any script, and
single underscores between digits.
-/

set_option autoImplicit false

namespace Downmark.Text

/-- The most digits that are read as a number. -/
def maxIntegerDigits : Nat := 4300

/-- The values of decimal digits with single underscores between them. -/
def digitValues? : Chars → Option (List Nat)
  | [] => none
  | [c] => (decimal? c).map ([·])
  | c :: '_' :: rest => do
    let d ← decimal? c
    let ds ← digitValues? rest
    pure (d :: ds)
  | c :: rest => do
    let d ← decimal? c
    let ds ← digitValues? rest
    pure (d :: ds)

/-- The number that decimal digits stand for. -/
def ofDigits (ds : List Nat) : Nat := ds.foldl (fun n d => 10 * n + d) 0

/-- The natural number written by digits, if there are not too many. -/
def nat? (s : Chars) : Option Nat := do
  let ds ← digitValues? s
  if ds.length ≤ maxIntegerDigits then pure (ofDigits ds) else none

/-- White space that may stand around a number: all but the four ASCII separators. -/
def isPadding (c : Char) : Bool := isBlank c && !(28 ≤ c.toNat && c.toNat ≤ 31)

/-- The whole number that a text stands for. -/
def int? (s : Chars) : Option Int :=
  match trim isPadding s with
  | '-' :: rest => (nat? rest).map fun n => -(n : Int)
  | '+' :: rest => (nat? rest).map Int.ofNat
  | rest => (nat? rest).map Int.ofNat

/-- A natural number in decimal. -/
def ofNat (n : Nat) : Chars := Nat.toDigits 10 n

/-- A whole number in decimal. -/
def ofInt (n : Int) : Chars := if n < 0 then '-' :: ofNat n.natAbs else ofNat n.natAbs

end Downmark.Text
