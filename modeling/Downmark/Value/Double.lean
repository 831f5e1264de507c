import Downmark.Text.Integer
/-!
Numbers with a fractional part, kept as their shortest decimal: the fewest digits that still name
the same binary number of 53 significant bits.
-/

set_option autoImplicit false

namespace Downmark

/-- A decimal, `digits * 10 ^ exponent` with a sign, or one of the numbers that no decimal names. -/
inductive Double where
  | finite (negative : Bool) (digits : Nat) (exponent : Int)
  | infinite (negative : Bool)
  | undefined
deriving DecidableEq, Repr

namespace Double

/-- The fraction `digits * base ^ exponent` as numerator and denominator. -/
def fraction (base digits : Nat) (exponent : Int) : Nat × Nat :=
  if 0 ≤ exponent then (digits * base.pow exponent.toNat, 1) else (digits, base.pow (-exponent).toNat)

/-- The quotient rounded to the nearest whole number, a half going to the even one. -/
def roundHalfEven (num den : Nat) : Nat :=
  let low := num / den
  let twice := 2 * (num % den)
  if twice < den then low
  else if den < twice then low + 1
  else if low % 2 == 0 then low else low + 1

/-- The binary number of 53 bits nearest to a fraction: mantissa and exponent of two. -/
def nearest (num den : Nat) : Nat × Int :=
  if num == 0 then (0, -1074) else
  let guess : Int := (Nat.log2 num : Int) - (Nat.log2 den : Int)
  let (n, d) := fraction 2 1 guess
  let top := if n * den ≤ num * d then guess else guess - 1
  let q := max (top - 52) (-1074)
  let (n, d) := fraction 2 1 q
  let mantissa := roundHalfEven (num * d) (den * n)
  if mantissa == Nat.pow 2 53 then (Nat.pow 2 52, q + 1) else (mantissa, q)

/-- The exponent of ten of the leading digit of a positive fraction. -/
def magnitude (num den : Nat) : Int :=
  let guess : Int := ((Text.ofNat num).length : Int) - ((Text.ofNat den).length : Int)
  let (n, d) := fraction 10 1 guess
  if n * den ≤ num * d then guess else guess - 1

/-- The two neighbours of a fraction on the grid of multiples of `10 ^ s`: the nearer one first, of
two at the same distance the even one. -/
def neighbours (num den : Nat) (s : Int) : List Nat :=
  let (n, d) := fraction 10 1 s
  let low := num * d / (den * n)
  let twice := 2 * (num * d % (den * n))
  if twice < den * n || (twice == den * n && low % 2 == 0) then [low, low + 1] else [low + 1, low]

/-- Trailing zeros moved into the exponent. -/
def dropZeros : Nat → Nat → Int → Nat × Int
  | 0, digits, exponent => (digits, exponent)
  | fuel + 1, digits, exponent =>
    if digits != 0 && digits % 10 == 0 then dropZeros fuel (digits / 10) (exponent + 1)
    else (digits, exponent)

/-- The shortest decimal that is nearest to the binary number `mantissa * 2 ^ q`. -/
def shortest (mantissa : Nat) (q : Int) : Nat × Int :=
  let (num, den) := fraction 2 mantissa q
  let top := magnitude num den
  let found := (List.range 17).findSome? fun (n : Nat) =>
    let s := top - (n : Int)
    ((neighbours num den s).find? fun c =>
      let (a, b) := fraction 10 c s
      nearest a b == (mantissa, q)).map fun c => dropZeros 20 c s
  found.getD (0, 0)

/-- The number nearest to a fraction, with a sign. -/
def ofFraction (negative : Bool) (num den : Nat) : Double :=
  let (mantissa, q) := nearest num den
  if mantissa == 0 then .finite negative 0 0
  else if 971 < q then .infinite negative
  else
    let (d, e) := shortest mantissa q
    .finite negative d e

/-- The number that a decimal with a sign names. -/
def ofDecimal (negative : Bool) (digits : Nat) (exponent : Int) : Double :=
  if digits == 0 then .finite negative 0 0
  else if 400 < exponent then .infinite negative
  else if exponent + ((Text.ofNat digits).length : Int) < -400 then .finite negative 0 0
  else
    let (num, den) := fraction 10 digits exponent
    ofFraction negative num den

/-- The size of a number, exactly, unless it is infinite or undefined. -/
def size? : Double → Option (Nat × Nat)
  | .finite _ digits exponent =>
    let (num, den) := fraction 10 digits exponent
    let (mantissa, q) := nearest num den
    some (fraction 2 mantissa q)
  | _ => none

/-- The sum of two numbers that are not negative. -/
def add (x y : Double) : Double :=
  match x.size?, y.size? with
  | some (a, b), some (c, d) => ofFraction false (a * d + c * b) (b * d)
  | none, _ => x
  | _, none => y

/-- The product of two numbers that are not negative. -/
def mul (x y : Double) : Double :=
  match x.size?, y.size? with
  | some (a, b), some (c, d) => ofFraction false (a * c) (b * d)
  | none, _ => x
  | _, none => y

/-- The number with the opposite sign. -/
def neg : Double → Double
  | .finite negative digits exponent => .finite (!negative) digits exponent
  | .infinite negative => .infinite (!negative)
  | .undefined => .undefined

/-- Digits of an exponent, at least two. -/
def exponentText (e : Nat) : Chars := if e < 10 then '0' :: Text.ofNat e else Text.ofNat e

/-- A decimal without a sign: positional from `10 ^ -4` up to `10 ^ 16`, else with an exponent. -/
def decimalText (digits : Nat) (exponent : Int) : Chars :=
  let ds := Text.ofNat digits
  let top := exponent + (ds.length : Int) - 1
  if digits == 0 then ['0', '.', '0']
  else if -4 ≤ top && top < 16 then
    if 0 ≤ exponent then ds ++ List.replicate exponent.toNat '0' ++ ['.', '0']
    else if 0 ≤ top then ds.take (top.toNat + 1) ++ '.' :: ds.drop (top.toNat + 1)
    else '0' :: '.' :: List.replicate (-top - 1).toNat '0' ++ ds
  else
    let tail := if ds.length == 1 then [] else '.' :: ds.drop 1
    ds.take 1 ++ tail ++ 'e' :: (if top < 0 then '-' else '+') :: exponentText top.natAbs

/-- The number as it is shown. -/
def text : Double → Chars
  | .finite negative digits exponent =>
    if negative then '-' :: decimalText digits exponent else decimalText digits exponent
  | .infinite negative => if negative then ['-', 'i', 'n', 'f'] else ['i', 'n', 'f']
  | .undefined => ['n', 'a', 'n']

end Double

end Downmark
