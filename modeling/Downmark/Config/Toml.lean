import Downmark.Value.Basic
import Downmark.Config.Toml.Moment
/-!
Reading TOML: keys, tables and arrays of tables, with strings, numbers, truth values, dates and
times, arrays and inline tables.

A table may be opened once, a key may be given once, and what an inline value wrote is closed.
-/

set_option autoImplicit false

namespace Downmark.Toml

/-- Names from the outermost table inwards. -/
abbrev Key := List String

abbrev Entries := List (Scalar × Value)

def isSpace (c : Char) : Bool := c == ' ' || c == '\t'

def skip (s : Chars) : Chars := s.dropWhile isSpace

/-- Controls that may stand nowhere, a tab aside. -/
def isControl (c : Char) : Bool := (c.toNat < 0x20 && c != '\t') || c.toNat == 0x7f

/-- What follows a comment, if one stands here. -/
def skipComment? (s : Chars) : Option Chars :=
  match s with
  | '#' :: rest =>
    if (rest.takeWhile (· != '\n')).any isControl then none else some (rest.dropWhile (· != '\n'))
  | _ => some s

/-- Skips white space, newlines and comments. -/
def skipAll? : Nat → Chars → Option Chars
  | 0, s => some s
  | fuel + 1, s =>
    match s.dropWhile fun c => isSpace c || c == '\n' with
    | '#' :: rest => (skipComment? ('#' :: rest)).bind (skipAll? fuel)
    | rest => some rest

def isBareChar (c : Char) : Bool :=
  Text.isAsciiLetter c || Text.isAsciiDigit c || c == '_' || c == '-'

/-- A character given by its number in hexadecimal digits. -/
def unicode? (width : Nat) (s : Chars) : Option (Char × Chars) :=
  let digits := s.take width
  if digits.length == width && digits.all Text.isHexDigit then
    let n := digits.foldl (fun n c => 16 * n + Text.hexValue c) 0
    if n.isValidChar then some (Char.ofNat n, s.drop width) else none
  else none

/-- The character that an escape names, given what follows the backslash. -/
def escape? : Chars → Option (Char × Chars)
  | 'b' :: s => some ('\x08', s)
  | 't' :: s => some ('\t', s)
  | 'n' :: s => some ('\n', s)
  | 'f' :: s => some ('\x0c', s)
  | 'r' :: s => some ('\r', s)
  | '"' :: s => some ('"', s)
  | '\\' :: s => some ('\\', s)
  | 'u' :: s => unicode? 4 s
  | 'U' :: s => unicode? 8 s
  | _ => none

/-- The rest of a string with escapes; the characters read so far come last one first. -/
def basic? (multiline : Bool) : Nat → Chars → Chars → Option (String × Chars)
  | 0, _, _ => none
  | fuel + 1, read, s =>
    match s with
    | [] => none
    | '"' :: rest =>
      if !multiline then some (String.ofList read.reverse, rest)
      else match rest with
        | '"' :: '"' :: '"' :: '"' :: rest =>
          some (String.ofList ('"' :: '"' :: read).reverse, rest)
        | '"' :: '"' :: '"' :: rest => some (String.ofList ('"' :: read).reverse, rest)
        | '"' :: '"' :: rest => some (String.ofList read.reverse, rest)
        | _ => basic? multiline fuel ('"' :: read) rest
    | '\\' :: rest =>
      let afterGap := skip rest
      if multiline && afterGap.head? == some '\n' then
        basic? multiline fuel read (afterGap.dropWhile fun c => isSpace c || c == '\n')
      else
        match escape? rest with
        | some (c, rest) => basic? multiline fuel (c :: read) rest
        | none => none
    | c :: rest =>
      if isControl c && !(multiline && c == '\n') then none
      else basic? multiline fuel (c :: read) rest

/-- The rest of a string without escapes; the characters read so far come last one first. -/
def literal? (multiline : Bool) : Nat → Chars → Chars → Option (String × Chars)
  | 0, _, _ => none
  | fuel + 1, read, s =>
    match s with
    | [] => none
    | '\'' :: rest =>
      if !multiline then some (String.ofList read.reverse, rest)
      else match rest with
        | '\'' :: '\'' :: '\'' :: '\'' :: rest =>
          some (String.ofList ('\'' :: '\'' :: read).reverse, rest)
        | '\'' :: '\'' :: '\'' :: rest => some (String.ofList ('\'' :: read).reverse, rest)
        | '\'' :: '\'' :: rest => some (String.ofList read.reverse, rest)
        | _ => literal? multiline fuel ('\'' :: read) rest
    | c :: rest =>
      if isControl c && !(multiline && c == '\n') then none
      else literal? multiline fuel (c :: read) rest

/-- The text without one leading newline. -/
def dropNewline : Chars → Chars
  | '\n' :: s => s
  | s => s

/-- A string of any of the four kinds. -/
def string? (s : Chars) : Option (String × Chars) :=
  let fuel := s.length + 1
  match s with
  | '"' :: '"' :: '"' :: rest => basic? true fuel [] (dropNewline rest)
  | '\'' :: '\'' :: '\'' :: rest => literal? true fuel [] (dropNewline rest)
  | '"' :: rest => basic? false fuel [] rest
  | '\'' :: rest => literal? false fuel [] rest
  | _ => none

/-- One name of a key. -/
def keyPart? (s : Chars) : Option (String × Chars) :=
  match s with
  | '"' :: rest => basic? false (s.length + 1) [] rest
  | '\'' :: rest => literal? false (s.length + 1) [] rest
  | _ =>
    match s.takeWhile isBareChar with
    | [] => none
    | name => some (String.ofList name, s.dropWhile isBareChar)

/-- The names of a key, with periods between them. -/
def key? : Nat → Chars → Option (Key × Chars)
  | 0, _ => none
  | fuel + 1, s => do
    let (name, rest) ← keyPart? s
    match skip rest with
    | '.' :: rest =>
      let (names, rest) ← key? fuel (skip rest)
      pure (name :: names, rest)
    | rest => pure ([name], rest)

/-- Digits with single underscores between them. -/
def joined? (isDigit : Char → Bool) : Chars → Option Chars
  | [] => none
  | [c] => if isDigit c then some [c] else none
  | c :: '_' :: rest => if isDigit c then (joined? isDigit rest).map (c :: ·) else none
  | c :: rest => if isDigit c then (joined? isDigit rest).map (c :: ·) else none

/-- The number that digits of a base write. -/
def baseValue (base : Nat) (ds : Chars) : Nat := ds.foldl (fun n c => base * n + Text.hexValue c) 0

def isOctal (c : Char) : Bool := '0' ≤ c && c ≤ '7'

def isBinary (c : Char) : Bool := c == '0' || c == '1'

/-- A number written by a word, without its sign. -/
def unsigned (negative : Bool) (word : Chars) : Reading Value := do
  let isPart := fun (c : Char) => Text.isAsciiDigit c || c == '_'
  let whole := word.takeWhile isPart
  let rest := word.drop whole.length
  let digits ← demand (joined? Text.isAsciiDigit whole)
  if digits.head? == some '0' && 1 < digits.length then .error .malformed
  else if rest.isEmpty then
    let n := baseValue 10 digits
    if Text.maxIntegerDigits < digits.length then .error .badNumber
    else pure (.int (if negative then -(n : Int) else n))
  else
    let (part, rest) : Option Chars × Chars := match rest with
      | '.' :: rest => (joined? Text.isAsciiDigit (rest.takeWhile isPart), rest.dropWhile isPart)
      | _ => (some [], rest)
    let part ← demand part
    match rest with
    | [] =>
      pure (.float (.ofDecimal negative (baseValue 10 (digits ++ part)) (-(part.length : Int))))
    | e :: rest =>
      let (minus, body) := match rest with
        | '-' :: body => (true, body)
        | '+' :: body => (false, body)
        | _ => (false, rest)
      let ds ← demand (if e == 'e' || e == 'E' then joined? Text.isAsciiDigit body else none)
      let power : Int := if minus then -(baseValue 10 ds : Int) else baseValue 10 ds
      pure (.float (.ofDecimal negative (baseValue 10 (digits ++ part))
        (power - (part.length : Int))))

/-- A number written by a word with its sign, if it has one. -/
def signed (negative : Bool) (word : Chars) : Reading Value :=
  if word == "inf".toList then .ok (.float (.infinite negative))
  else if word == "nan".toList then .ok (.float .undefined)
  else unsigned negative word

/-- A number written by a word. -/
def number (word : Chars) : Reading Value :=
  let based := fun (base : Nat) (isDigit : Char → Bool) (ds : Chars) => do
    let ds ← demand (joined? isDigit ds)
    pure (Value.int (baseValue base ds))
  match word with
  | '0' :: 'x' :: ds => based 16 Text.isHexDigit ds
  | '0' :: 'o' :: ds => based 8 isOctal ds
  | '0' :: 'b' :: ds => based 2 isBinary ds
  | '+' :: rest => signed false rest
  | '-' :: rest => signed true rest
  | _ => signed false word

def isWordChar (c : Char) : Bool :=
  Text.isAsciiLetter c || Text.isAsciiDigit c || c == '_' || c == '-' || c == '+' || c == '.'

/-- Changes the entries of the table that a key leads to; tables on the way are opened. -/
def onTable (change : Entries → Option Entries) : Key → Entries → Option Entries
  | [], es => change es
  | name :: rest, es =>
    match es.lookup (.str name) with
    | none => (onTable change rest []).map fun sub => putEntry (.str name) (.dict sub) es
    | some (.dict sub) =>
      (onTable change rest sub).map fun sub => putEntry (.str name) (.dict sub) es
    | some (.list items) =>
      match items.getLast? with
      | some (.dict sub) =>
        (onTable change rest sub).map fun sub =>
          putEntry (.str name) (.list (items.dropLast ++ [.dict sub])) es
      | _ => none
    | some _ => none

/-- Gives a key its first value. -/
def assign? (key : Key) (v : Value) (es : Entries) : Option Entries :=
  match key.getLast? with
  | none => none
  | some stem =>
    onTable (fun table => if (table.lookup (.str stem)).isSome then none
      else some (putEntry (.str stem) v table)) key.dropLast es

/-- How much of the room for nesting an array takes. -/
def arrayDepth : Nat := 2

/-- How much of the room for nesting an inline table takes. -/
def tableDepth : Nat := 3

mutual

/-- A value. `room` is how deep arrays and inline tables may still go. -/
def value : Nat → Nat → Chars → Reading (Value × Chars)
  | 0, _, _ => .error .malformed
  | fuel + 1, room, s =>
    match s with
    | '"' :: _ => do
      let (text, rest) ← demand (string? s)
      pure (.str text, rest)
    | '\'' :: _ => do
      let (text, rest) ← demand (string? s)
      pure (.str text, rest)
    | '[' :: rest =>
      if room < arrayDepth then .error .tooDeep
      else do
        let (found, rest) ← items fuel (room - arrayDepth) [] rest
        pure (.list found, rest)
    | '\x7b' :: rest =>
      if room < tableDepth then .error .tooDeep
      else match skip rest with
        | '\x7d' :: rest => pure (.dict [], rest)
        | rest => do
          let (found, rest) ← pairs fuel (room - tableDepth) [] [] rest
          pure (.dict found, rest)
    | _ =>
      match moment? s with
      | some found => do
        let (m, rest) ← found
        pure (.scalar (.moment m), rest)
      | none =>
        let word := s.takeWhile isWordChar
        let rest := s.dropWhile isWordChar
        if word == "true".toList then pure (.bool true, rest)
        else if word == "false".toList then pure (.bool false, rest)
        else do
          let v ← number word
          pure (v, rest)

/-- The rest of an array; the values read so far come last one first. -/
def items : Nat → Nat → List Value → Chars → Reading (List Value × Chars)
  | 0, _, _, _ => .error .malformed
  | fuel + 1, room, read, s => do
    let rest ← demand (skipAll? (s.length + 1) s)
    match rest with
    | ']' :: rest => pure (read.reverse, rest)
    | rest =>
      let (v, rest) ← value fuel room rest
      let rest ← demand (skipAll? (rest.length + 1) rest)
      match rest with
      | ',' :: rest => items fuel room (v :: read) rest
      | ']' :: rest => pure ((v :: read).reverse, rest)
      | _ => .error .malformed

/-- The rest of an inline table; what the values before wrote is closed. -/
def pairs : Nat → Nat → List Key → Entries → Chars → Reading (Entries × Chars)
  | 0, _, _, _, _ => .error .malformed
  | fuel + 1, room, closed, es, s => do
    let (key, rest) ← demand (key? (s.length + 1) (skip s))
    match skip rest with
    | '=' :: rest =>
      let (v, rest) ← value fuel room (skip rest)
      if closed.any fun c => c.isPrefixOf key then .error .malformed
      else
        let es ← demand (assign? key v es)
        let closed := match v with
          | .scalar _ => closed
          | _ => key :: closed
        match skip rest with
        | ',' :: rest => pairs fuel room closed es rest
        | '\x7d' :: rest => pure (es, rest)
        | _ => .error .malformed
    | _ => .error .malformed

end

/-- A document that is being read. -/
structure Document where
  entries : Entries := []
  /-- The table that is open. -/
  header : Key := []
  /-- Tables that may not be opened again. -/
  opened : List Key := []
  /-- Tables that keys with periods opened since the last header. -/
  pending : List Key := []
  /-- Values that nothing may be added to. -/
  closed : List Key := []

namespace Document

/-- Whether a key leads to or into a closed value. -/
def isClosed (d : Document) (key : Key) : Bool := d.closed.any fun c => c.isPrefixOf key

/-- The tables that a key with periods leads through. -/
def through (header key : Key) : List Key :=
  ((List.range key.length).drop 1).map fun n => header ++ key.take n

/-- Gives a key of the open table its value. -/
def assign (d : Document) (key : Key) (v : Value) : Option Document :=
  let inner := through d.header key
  if inner.any d.opened.contains || d.isClosed (d.header ++ key.dropLast) then none
  else do
    let entries ← assign? (d.header ++ key) v d.entries
    let closed := match v with
      | .dict _ => (d.header ++ key) :: d.closed
      | .list _ => (d.header ++ key) :: d.closed
      | _ => d.closed
    pure { d with entries, pending := inner ++ d.pending, closed }

/-- Tables that were opened by keys count as opened from the next header on. -/
def settle (d : Document) : Document := { d with opened := d.pending ++ d.opened, pending := [] }

/-- Opens a table. -/
def openTable (d : Document) (key : Key) : Option Document :=
  if d.opened.contains key || d.isClosed key then none
  else do
    let entries ← onTable some key d.entries
    pure { d with entries, opened := key :: d.opened, header := key }

/-- Adds a table to an array of tables and opens it. -/
def openItem (d : Document) (key : Key) : Option Document :=
  if d.isClosed key then none
  else match key.getLast? with
    | none => none
    | some stem => do
      let entries ← onTable (fun table =>
        match table.lookup (.str stem) with
        | none => some (putEntry (.str stem) (.list [.dict []]) table)
        | some (.list items) => some (putEntry (.str stem) (.list (items ++ [.dict []])) table)
        | some _ => none) key.dropLast d.entries
      pure { d with
        entries, header := key
        opened := key :: d.opened.filter fun k => !key.isPrefixOf k
        closed := d.closed.filter fun k => !key.isPrefixOf k }

end Document

/-- Reads one statement after the other. -/
def statements (room : Nat) : Nat → Document → Chars → Reading Document
  | 0, _, _ => .error .malformed
  | fuel + 1, d, s => do
    let finish := fun (d : Document) (rest : Chars) => do
      let rest ← demand (skipComment? (skip rest))
      match rest with
      | [] => pure d
      | '\n' :: rest => statements room fuel d rest
      | _ => .error .malformed
    match skip s with
    | [] => pure d
    | '\n' :: rest => statements room fuel d rest
    | '#' :: rest => finish d ('#' :: rest)
    | '[' :: '[' :: rest =>
      let (key, rest) ← demand (key? (rest.length + 1) (skip rest))
      match rest with
      | ']' :: ']' :: rest =>
        let d ← demand (d.settle.openItem key)
        finish d rest
      | _ => .error .malformed
    | '[' :: rest =>
      let (key, rest) ← demand (key? (rest.length + 1) (skip rest))
      match rest with
      | ']' :: rest =>
        let d ← demand (d.settle.openTable key)
        finish d rest
      | _ => .error .malformed
    | rest =>
      let (key, rest) ← demand (key? (rest.length + 1) rest)
      match rest with
      | '=' :: rest =>
        let (v, rest) ← value (2 * rest.length + 2) room (skip rest)
        let d ← demand (d.assign key v)
        finish d rest
      | _ => .error .malformed

/-- Newlines written as a pair become single ones. -/
def plainNewlines : Chars → Chars
  | '\r' :: '\n' :: s => '\n' :: plainNewlines s
  | c :: s => c :: plainNewlines s
  | [] => []

/-- The table that a text writes. -/
def read (room : Nat) (s : Chars) : Reading Value := do
  let s := plainNewlines s
  let d ← statements room (s.length + 2) {} s
  pure (.dict d.entries)

end Downmark.Toml
