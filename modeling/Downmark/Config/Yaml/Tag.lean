import Downmark.Value.Basic
import Downmark.Config.ReadError
/-!
Tags: what kind of value a YAML node stands for, and the scalars that texts with a tag write.

A plain scalar has the tag of the first form that it takes: a truth value, a number with a point, a
whole number, the mark of a merged mapping, null, a moment, the mark of a default value, a mark of
the format itself, which has no value; all others are strings.
-/

set_option autoImplicit false

namespace Downmark.Yaml

inductive Tag where
  | null
  | bool
  | int
  | float
  | str
  | moment
  | sequence
  | mapping
  /-- The key under which other mappings are merged into this one. -/
  | merge
  /-- The key of a default value, which counts as a string. -/
  | default
  /-- A tag that no value has. -/
  | other
deriving DecidableEq, Repr

/-- What the tags of the format itself begin with. -/
def Tag.stem : String := "tag:yaml.org,2002:"

def Tag.names : List (String × Tag) :=
  [("null", .null), ("bool", .bool), ("int", .int), ("float", .float), ("str", .str),
   ("timestamp", .moment), ("seq", .sequence), ("map", .mapping), ("merge", .merge),
   ("value", .default)]

/-- The tag with a name. -/
def Tag.ofName (name : Chars) : Tag :=
  match Text.strip? Tag.stem.toList name with
  | some short => (Tag.names.lookup (String.ofList short)).getD .other
  | none => .other

/-! Forms of plain scalars -/

def trueWords : List String := ["yes", "Yes", "YES", "true", "True", "TRUE", "on", "On", "ON"]

def falseWords : List String :=
  ["no", "No", "NO", "false", "False", "FALSE", "off", "Off", "OFF"]

def nullWords : List String := ["~", "null", "Null", "NULL", ""]

def infinityWords : List String := [".inf", ".Inf", ".INF"]

def undefinedWords : List String := [".nan", ".NaN", ".NAN"]

def isWordOf (words : List String) (s : Chars) : Bool := words.contains (String.ofList s)

/-- A digit or an underscore. -/
def isPart (c : Char) : Bool := Text.isAsciiDigit c || c == '_'

/-- The text without one sign in front. -/
def dropSign (s : Chars) : Chars :=
  match s with
  | '-' :: rest => rest
  | '+' :: rest => rest
  | _ => s

/-- The text after a digit of a class and all digits and underscores behind it. -/
def afterDigits? (isFirst : Char → Bool) (s : Chars) : Option Chars :=
  match s with
  | c :: rest => if isFirst c then some (rest.dropWhile isPart) else none
  | [] => none

/-- Whether a text is an exponent with its sign, or empty. -/
def isExponent (s : Chars) : Bool :=
  match s with
  | [] => true
  | e :: sign :: ds =>
    (e == 'e' || e == 'E') && (sign == '+' || sign == '-') && !ds.isEmpty
      && ds.all Text.isAsciiDigit
  | _ => false

/-- The text after one place of base sixty, from its colon. -/
def afterSixtieth? (s : Chars) : Option Chars :=
  match s with
  | ':' :: a :: b :: rest =>
    if '0' ≤ a && a < '6' && Text.isAsciiDigit b then some rest
    else if Text.isAsciiDigit a then some (b :: rest) else none
  | [':', a] => if Text.isAsciiDigit a then some [] else none
  | _ => none

/-- The text after all places of base sixty, if there is one at least. -/
def afterSixtieths? : Nat → Chars → Option Chars
  | 0, _ => none
  | fuel + 1, s => (afterSixtieth? s).map fun rest => (afterSixtieths? fuel rest).getD rest

/-- Whether a text is a number with a point. -/
def isFloat (s : Chars) : Bool :=
  let body := dropSign s
  let pointed := match afterDigits? Text.isAsciiDigit body with
    | some ('.' :: rest) => isExponent (rest.dropWhile isPart)
    | _ => false
  let bare := match s with
    | '.' :: rest => (afterDigits? Text.isAsciiDigit rest).any isExponent
    | _ => false
  let sixties := match (afterDigits? Text.isAsciiDigit body).bind (afterSixtieths? s.length) with
    | some ('.' :: rest) => rest.all isPart
    | _ => false
  pointed || bare || sixties || isWordOf infinityWords body || isWordOf undefinedWords s

/-- Whether a text is a whole number, in base two, eight, ten, sixteen or sixty. -/
def isInt (s : Chars) : Bool :=
  let body := dropSign s
  let based := match body with
    | '0' :: 'b' :: ds => !ds.isEmpty && ds.all fun c => c == '0' || c == '1' || c == '_'
    | '0' :: 'x' :: ds => !ds.isEmpty && ds.all fun c => Text.isHexDigit c || c == '_'
    | '0' :: ds => ds.all fun c => ('0' ≤ c && c ≤ '7') || c == '_'
    | _ => false
  let rest := afterDigits? (fun c => '1' ≤ c && c ≤ '9') body
  based || rest == some [] || rest.bind (afterSixtieths? s.length) == some []

/-! Moments -/

/-- Some digits, at least and at most as many as given, and what follows them. -/
def digitsWithin? (least most : Nat) (s : Chars) : Option (Nat × Chars) :=
  let ds := (s.take most).takeWhile Text.isAsciiDigit
  if least ≤ ds.length then
    some (ds.foldl (fun n c => 10 * n + (c.toNat - '0'.toNat)) 0, s.drop ds.length)
  else none

/-- A day and the number of digits in its month and day. -/
def date? (s : Chars) : Option (Date × Chars) := do
  let (year, s) ← digitsWithin? 4 4 s
  let s ← Text.strip? ['-'] s
  let (month, s) ← digitsWithin? 1 2 s
  let s ← Text.strip? ['-'] s
  let (day, s) ← digitsWithin? 1 2 s
  pure ({ year, month, day }, s)

/-- The text between a day and a time of day. -/
def afterDate? (s : Chars) : Option Chars :=
  match s with
  | c :: rest =>
    if c == 'T' || c == 't' then some rest
    else if Text.isGap c then some (rest.dropWhile Text.isGap)
    else none
  | [] => none

/-- A time of day; of its fraction six digits count. -/
def clockTime? (s : Chars) : Option (ClockTime × Chars) := do
  let (hour, s) ← digitsWithin? 1 2 s
  let s ← Text.strip? [':'] s
  let (minute, s) ← digitsWithin? 2 2 s
  let s ← Text.strip? [':'] s
  let (second, s) ← digitsWithin? 2 2 s
  match s with
  | '.' :: rest =>
    let ds := rest.takeWhile Text.isAsciiDigit
    let six := (ds ++ List.replicate 6 '0').take 6
    let micro := six.foldl (fun n c => 10 * n + (c.toNat - '0'.toNat)) 0
    pure ({ hour, minute, second, micro }, rest.drop ds.length)
  | _ => pure ({ hour, minute, second }, s)

/-- The distance from universal time that ends a text, in minutes, or that there is none. -/
def offset? (s : Chars) : Option (Option Int) :=
  match s.dropWhile Text.isGap with
  | ['Z'] => some (some 0)
  | sign :: rest =>
    if sign == '+' || sign == '-' then do
      let (hours, rest) ← digitsWithin? 1 2 rest
      let minutes ← match rest with
        | [] => some 0
        | _ => do
          let rest ← Text.strip? [':'] rest
          let (minutes, rest) ← digitsWithin? 2 2 rest
          if rest.isEmpty then pure minutes else none
      let total : Int := 60 * hours + minutes
      pure (some (if sign == '-' then -total else total))
    else none
  | [] => if s.isEmpty then some none else none

/-- The moment that a text has the form of; it need not exist. -/
def moment? (s : Chars) : Option Moment := do
  let (d, rest) ← date? s
  if rest.isEmpty then pure (.date d)
  else
    let rest ← afterDate? rest
    let (t, rest) ← clockTime? rest
    let offset ← offset? rest
    pure (.dateTime d t offset)

/-- Whether a plain scalar is taken for a moment: a day alone has two digits for month and day. -/
def isMoment (s : Chars) : Bool :=
  match moment? s with
  | some (.date _) => s.length == 10
  | some _ => true
  | none => false

/-- The tag of a plain scalar. -/
def Tag.ofPlain (s : Chars) : Tag :=
  if isWordOf trueWords s || isWordOf falseWords s then .bool
  else if isFloat s then .float
  else if isInt s then .int
  else if s == ['<', '<'] then .merge
  else if isWordOf nullWords s then .null
  else if isMoment s then .moment
  else if s == ['='] then .default
  else if ["!", "&", "*"].contains (String.ofList s) then .other
  else .str

/-! Scalars with a tag -/

/-- The number that digits of a base write. -/
def inBase (base : Nat) (isDigit : Char → Bool) (ds : Chars) : Reading Nat :=
  if ds.isEmpty || !ds.all isDigit then .error .badNumber
  else .ok (ds.foldl (fun n c => base * n + Text.hexValue c) 0)

/-- The number in base ten that a text writes, of no more digits than are ever written. -/
def decimal (s : Chars) : Reading Int :=
  match Text.int? s with
  | some n => .ok n
  | none => .error .badNumber

/-- The parts of a text between colons. -/
def parts (s : Chars) : List Chars :=
  Text.lines (s.map fun c => if c == ':' then '\n' else c)

/-- A whole number without a sign and underscores. -/
def wholeOf (s : Chars) : Reading Int :=
  match s with
  | ['0'] => .ok 0
  | '0' :: 'b' :: ds => do
    let n ← inBase 2 (fun c => c == '0' || c == '1') ds
    pure n
  | '0' :: 'x' :: ds => do
    let n ← inBase 16 Text.isHexDigit ds
    pure n
  | '0' :: ds => do
    let ds := match ds with
      | 'o' :: rest => rest
      | _ => ds
    let n ← inBase 8 (fun c => '0' ≤ c && c ≤ '7') ds
    pure n
  | [] => .error .noDigits
  | _ => do
    let ds ← (parts s).mapM decimal
    pure (ds.foldl (fun n d => 60 * n + d) 0)

/-- The sign of a number and the number without it and without underscores. -/
def signed (s : Chars) : Reading (Bool × Chars) :=
  match s.filter (· != '_') with
  | [] => .error .noDigits
  | '-' :: rest => .ok (true, rest)
  | rest => .ok (false, dropSign rest)

/-- A number in decimal, with or without a point, an exponent and digits around it. -/
def pointed (s : Chars) : Reading Double :=
  let whole := s.takeWhile Text.isAsciiDigit
  let rest := s.drop whole.length
  let part := match rest with
    | '.' :: rest => rest.takeWhile Text.isAsciiDigit
    | _ => []
  let rest := match rest with
    | '.' :: rest => rest.drop part.length
    | _ => rest
  let digits := (whole ++ part).foldl (fun n c => 10 * n + (c.toNat - '0'.toNat)) 0
  if (whole ++ part).isEmpty then .error .badNumber
  else match rest with
    | [] => .ok (.ofDecimal false digits (-(part.length : Int)))
    | e :: rest => do
      let power ← decimal rest
      if e == 'e' then pure (.ofDecimal false digits (power - (part.length : Int)))
      else .error .badNumber

/-- The sum of the places of a number in base sixty, the last one first. -/
def sixties : List Double → Nat → Double → Reading Double
  | [], _, sum => .ok sum
  | d :: rest, base, sum =>
    match Double.ofFraction false base 1 with
    | .infinite _ => .error .tooLarge
    | place => sixties rest (60 * base) (sum.add (d.mul place))

/-- A number with a point, without a sign and underscores, in small letters. -/
def floatOf (s : Chars) : Reading Double :=
  if s == ".inf".toList then .ok (.infinite false)
  else if s == ".nan".toList then .ok .undefined
  else match parts s with
    | [only] => pointed only
    | many => do
      let ds ← many.mapM pointed
      sixties ds.reverse 1 (.finite false 0 0)

/-- The scalar that a text with a tag writes; no text writes a sequence or a mapping. -/
def Tag.scalar (tag : Tag) (s : Chars) : Reading Scalar :=
  match tag with
  | .null => .ok .null
  | .bool =>
    let word := s.map Char.toLower
    if ["yes", "true", "on"].contains (String.ofList word) then .ok (.bool true)
    else if ["no", "false", "off"].contains (String.ofList word) then .ok (.bool false)
    else .error .noTruthValue
  | .int => do
    let (negative, body) ← signed s
    let n ← wholeOf body
    pure (.int (if negative then -n else n))
  | .float => do
    let (negative, body) ← signed s
    let x ← floatOf (body.map Char.toLower)
    pure (.float (if negative then x.neg else x))
  | .str => .ok (.str (String.ofList s))
  | .moment =>
    match moment? s with
    | none => .error .noMoment
    | some (.dateTime d t offset) =>
      if d.isValid && t.isValid && offset.all isValidOffset then
        .ok (.moment (.dateTime d t offset))
      else .error .badNumber
    | some (.date d) => if d.isValid then .ok (.moment (.date d)) else .error .badNumber
    | some m => .ok (.moment m)
  | _ => .error .malformed

end Downmark.Yaml
