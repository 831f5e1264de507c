import Downmark.Value.Basic
import Downmark.Text.Classes
import Downmark.Config.ReadError
/-!
Reading JSON. Numbers without a point or an exponent are whole; `NaN` and the infinities are read as
well; a repeated key keeps its first place and takes its last value. How deep arrays and objects may
lie inside of one another is for the caller to say.
-/

set_option autoImplicit false

namespace Downmark.Json

def isSpace (c : Char) : Bool := c == ' ' || c == '\t' || c == '\n' || c == '\r'

def skip (s : Chars) : Chars := s.dropWhile isSpace

/-- Four hexadecimal digits. -/
def hex4? : Chars → Option (Nat × Chars)
  | a :: b :: c :: d :: s =>
    if [a, b, c, d].all Text.isHexDigit then
      some ([a, b, c, d].foldl (fun n x => 16 * n + Text.hexValue x) 0, s)
    else none
  | _ => none

/-- The character of a code unit that is half of no pair. -/
def unitChar (n : Nat) : Char := if n.isValidChar then Char.ofNat n else '\ufffd'

/-- The character that an escape names, given what follows the backslash. -/
def escape? : Chars → Option (Char × Chars)
  | '"' :: s => some ('"', s)
  | '\\' :: s => some ('\\', s)
  | '/' :: s => some ('/', s)
  | 'b' :: s => some ('\x08', s)
  | 'f' :: s => some ('\x0c', s)
  | 'n' :: s => some ('\n', s)
  | 'r' :: s => some ('\r', s)
  | 't' :: s => some ('\t', s)
  | 'u' :: s =>
    match hex4? s with
    | none => none
    | some (high, '\\' :: 'u' :: rest) =>
      if 0xd800 ≤ high && high < 0xdc00 then
        match hex4? rest with
        | some (low, after) =>
          if 0xdc00 ≤ low && low < 0xe000 then
            some (Char.ofNat (0x10000 + (high - 0xd800) * 0x400 + (low - 0xdc00)), after)
          else some ('\ufffd', '\\' :: 'u' :: rest)
        | none => none
      else some (unitChar high, '\\' :: 'u' :: rest)
    | some (unit, rest) => some (unitChar unit, rest)
  | _ => none

/-- The rest of a string after its opening quote; the characters read so far come last one first. -/
def string? : Nat → Chars → Chars → Option (String × Chars)
  | 0, _, _ => none
  | fuel + 1, read, s =>
    match s with
    | '"' :: rest => some (String.ofList read.reverse, rest)
    | '\\' :: rest =>
      match escape? rest with
      | some (c, rest) => string? fuel (c :: read) rest
      | none => none
    | c :: rest => if c.toNat < 0x20 then none else string? fuel (c :: read) rest
    | [] => none

/-- The number that digits write. -/
def digitsValue (ds : Chars) : Nat := ds.foldl (fun n c => 10 * n + (c.toNat - '0'.toNat)) 0

/-- Digits after a point, if a point and a digit follow. -/
def fraction (s : Chars) : Chars × Chars :=
  match s with
  | '.' :: rest =>
    match rest.takeWhile Text.isAsciiDigit with
    | [] => ([], s)
    | ds => (ds, rest.dropWhile Text.isAsciiDigit)
  | _ => ([], s)

/-- An exponent, if one follows. -/
def exponent? (s : Chars) : Option (Int × Chars) :=
  match s with
  | e :: rest =>
    if e == 'e' || e == 'E' then
      let (negative, body) := match rest with
        | '-' :: body => (true, body)
        | '+' :: body => (false, body)
        | _ => (false, rest)
      match body.takeWhile Text.isAsciiDigit with
      | [] => none
      | ds =>
        let n := digitsValue ds
        some (if negative then -(n : Int) else n, body.dropWhile Text.isAsciiDigit)
    else none
  | [] => none

/-- A number without its sign. A whole number has no more digits than are ever written. -/
def number (negative : Bool) (s : Chars) : Reading (Value × Chars) :=
  let whole := match s with
    | '0' :: _ => ['0']
    | _ => s.takeWhile Text.isAsciiDigit
  if whole.isEmpty then .error .malformed
  else
    let rest := s.drop whole.length
    let (part, rest) := fraction rest
    match part, exponent? rest with
    | [], none =>
      let n := digitsValue whole
      if Text.maxIntegerDigits < whole.length then .error .badNumber
      else .ok (.int (if negative then -(n : Int) else n), rest)
    | _, found =>
      let (e, rest) := found.getD (0, rest)
      let digits := digitsValue (whole ++ part)
      .ok (.float (.ofDecimal negative digits (e - (part.length : Int))), rest)

/-- Words that stand for a value. -/
def words : List (String × Value) :=
  [("null", .null), ("true", .bool true), ("false", .bool false), ("NaN", .float .undefined),
   ("Infinity", .float (.infinite false)), ("-Infinity", .float (.infinite true))]

/-- The value of the word that a text begins with. -/
def word? (s : Chars) : Option (Value × Chars) :=
  words.findSome? fun entry => (Text.strip? entry.1.toList s).map fun rest => (entry.2, rest)

/-- A string after its opening quote. -/
def quoted (s : Chars) : Reading (String × Chars) := demand (string? (s.length + 1) [] s)

mutual

/-- The value that a text begins with, and what follows it. `room` is how deep arrays and objects
may still go. -/
def value : Nat → Nat → Chars → Reading (Value × Chars)
  | 0, _, _ => .error .malformed
  | fuel + 1, room, s =>
    match skip s with
    | '"' :: rest => do
      let (text, rest) ← quoted rest
      pure (.str text, rest)
    | '[' :: rest =>
      match room with
      | 0 => .error .tooDeep
      | room + 1 =>
        match skip rest with
        | ']' :: rest => .ok (.list [], rest)
        | rest => do
          let (found, rest) ← items fuel room [] rest
          pure (.list found, rest)
    | '\x7b' :: rest =>
      match room with
      | 0 => .error .tooDeep
      | room + 1 =>
        match skip rest with
        | '\x7d' :: rest => .ok (.dict [], rest)
        | rest => do
          let (found, rest) ← entries fuel room [] rest
          pure (.dict (ofPairs found), rest)
    | rest =>
      match word? rest with
      | some found => .ok found
      | none =>
        match rest with
        | '-' :: digits => number true digits
        | _ => number false rest

/-- The rest of an array; the values read so far come last one first. -/
def items : Nat → Nat → List Value → Chars → Reading (List Value × Chars)
  | 0, _, _, _ => .error .malformed
  | fuel + 1, room, read, s => do
    let (v, rest) ← value fuel room s
    match skip rest with
    | ',' :: rest => items fuel room (v :: read) rest
    | ']' :: rest => pure ((v :: read).reverse, rest)
    | _ => .error .malformed

/-- The rest of an object; the entries read so far come last one first. -/
def entries : Nat → Nat → List (Scalar × Value) → Chars → Reading (List (Scalar × Value) × Chars)
  | 0, _, _, _ => .error .malformed
  | fuel + 1, room, read, s =>
    match skip s with
    | '"' :: rest => do
      let (key, rest) ← quoted rest
      match skip rest with
      | ':' :: rest => do
        let (v, rest) ← value fuel room rest
        match skip rest with
        | ',' :: rest => entries fuel room ((.str key, v) :: read) rest
        | '\x7d' :: rest => pure (((.str key, v) :: read).reverse, rest)
        | _ => .error .malformed
      | _ => .error .malformed
    | _ => .error .malformed

end

/-- The value that a text writes, if it is one value and nothing else. -/
def read (room : Nat) (s : Chars) : Reading Value := do
  let (v, rest) ← value (2 * s.length + 2) room s
  if (skip rest).isEmpty then pure v else .error .malformed

end Downmark.Json
