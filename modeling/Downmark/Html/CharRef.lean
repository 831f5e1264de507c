import Downmark.Html.Names
import Downmark.Text.Classes
/-!
Character references, as they are read in text and in attribute values.
-/

set_option autoImplicit false

namespace Downmark.Html

/-- The character of a code point, or a replacement mark if there is none. -/
def charOf (n : Nat) : Char := if n.isValidChar then Char.ofNat n else '\ufffd'

/-- The character that a numeric reference means. -/
def numericChar (n : Nat) : Char := charOf ((codePage.lookup n).getD n)

/-- The character that a name means. -/
def namedChar? (name : Chars) : Option Char :=
  let key := String.ofList name
  ((shortNames.lookup key).orElse fun _ => longNames.lookup key).map Char.ofNat

/-- The number written by hexadecimal digits. -/
def hexNumber (digits : Chars) : Nat := digits.foldl (fun n c => 16 * n + Text.hexValue c) 0

/-- The number written by decimal digits. -/
def decNumber (digits : Chars) : Nat := digits.foldl (fun n c => 10 * n + Text.hexValue c) 0

/-- Code points that no attribute value may hold: controls, and code points without a character. -/
def isForbidden (n : Nat) : Bool :=
  (1 ≤ n && n ≤ 8) || n == 0xb || (0xe ≤ n && n ≤ 0x1f) || (0x7f ≤ n && n ≤ 0x9f)
    || (0xfdd0 ≤ n && n ≤ 0xfdef) || (0xfffe ≤ n && 0xfffe ≤ n % 0x10000)

/-- What a number stands for in an attribute value. -/
def valueNumber (n : Nat) : Chars :=
  if n == 0 then ['\ufffd']
  else if n == 0xd || (codePage.lookup n).isSome then [numericChar n]
  else if n == 0x81 || n == 0x8d || n == 0x8f || n == 0x90 || n == 0x9d then [Char.ofNat n]
  else if !n.isValidChar then ['\ufffd']
  else if isForbidden n then []
  else [Char.ofNat n]

/-- The text without one leading semicolon. -/
def dropSemicolon : Chars → Chars
  | ';' :: s => s
  | s => s

/-- The longest name, of at least two characters, that is read without a semicolon and that a text
of at most `n` characters begins with: its character and its length. -/
def shortName? (s : Chars) : Nat → Option (Char × Nat)
  | 0 => none
  | n + 1 =>
    if n + 1 < 2 then none
    else match shortNames.lookup (String.ofList (s.take (n + 1))) with
      | some code => some (Char.ofNat code, n + 1)
      | none => shortName? s n

/-- Characters that may stand in a name. -/
def isNameChar (c : Char) : Bool := !(['\t', '\n', '\x0c', ' ', '<', '&', '#', ';'].contains c)

/-- What digits that begin a text mean as a code point in an attribute value, and how much is read,
`start` characters before them and a semicolon after them included. -/
def valueNumeric (start : Nat) (isDigit : Char → Bool) (number : Chars → Nat) (s : Chars) :
    Chars × Nat :=
  let digits := s.takeWhile isDigit
  if digits.isEmpty then (['&'], 0)
  else
    let closed := (s.drop digits.length).head? == some ';'
    (valueNumber (number digits), start + digits.length + (if closed then 1 else 0))

/-- What a text after an ampersand means in an attribute value, and how much of it is read. -/
def valueReference (s : Chars) : Chars × Nat :=
  match s with
  | '#' :: 'x' :: rest => valueNumeric 2 Text.isHexDigit hexNumber rest
  | '#' :: 'X' :: rest => valueNumeric 2 Text.isHexDigit hexNumber rest
  | '#' :: rest => valueNumeric 1 Text.isAsciiDigit decNumber rest
  | _ =>
    let name := (s.takeWhile isNameChar).take 32
    let closed := (s.drop name.length).head? == some ';'
    match closed, (if closed then namedChar? name else none) with
    | true, some c => ([c], name.length + 1)
    | _, _ =>
      match shortName? name name.length with
      | some (c, n) => ([c], n)
      | none => (['&'], 0)

/-- An attribute value with its references read; at most `fuel` of them. -/
def readValue : Nat → Chars → Chars
  | 0, s => s
  | fuel + 1, s =>
    match s.dropWhile (· != '&') with
    | [] => s
    | _ :: rest =>
      let (found, n) := valueReference rest
      s.takeWhile (· != '&') ++ found ++ readValue fuel (rest.drop n)

/-- An attribute value with its references read. -/
def value (s : Chars) : Chars := readValue s.length s

end Downmark.Html
