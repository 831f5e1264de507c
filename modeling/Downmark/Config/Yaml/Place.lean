import Downmark.Text.Classes
import Downmark.Config.ReadError
/-!
A place in a YAML text: what is still to be read, and how far it lies from the beginning of the text
and of its line.
-/

set_option autoImplicit false

namespace Downmark.Yaml

structure Place where
  rest : Chars
  /-- Characters before this place. -/
  index : Nat := 0
  /-- Lines before the line of this place. -/
  line : Nat := 0
  /-- Characters before this place in its line, a byte order mark aside. -/
  column : Nat := 0

/-- A character that ends a line. -/
def isBreak (c : Char) : Bool := ['\n', '\u0085', '\u2028', '\u2029'].contains c

/-- White space: a space, a tab or the end of a line. -/
def isSpace (c : Char) : Bool := Text.isGap c || isBreak c

/-- Whether the next character is of a class, the end of the text counting as one of it. -/
def endsOr (p : Char → Bool) (s : Chars) : Bool :=
  match s with
  | [] => true
  | c :: _ => p c

/-- Characters that lie between the parts of a flow collection. -/
def isFlowMark (c : Char) : Bool := [',', '[', ']', '\x7b', '\x7d'].contains c

/-- Letters, digits, dashes and underscores: what names are made of. -/
def isNameChar (c : Char) : Bool :=
  Text.isAsciiLetter c || Text.isAsciiDigit c || c == '-' || c == '_'

namespace Place

/-- The place after the next character. -/
def next (p : Place) : Place :=
  match p.rest with
  | [] => p
  | c :: rest =>
    if isBreak c then { rest, index := p.index + 1, line := p.line + 1, column := 0 }
    else if c == '\ufeff' then { p with rest, index := p.index + 1 }
    else { p with rest, index := p.index + 1, column := p.column + 1 }

/-- The place some characters further on. -/
def skip : Nat → Place → Place
  | 0, p => p
  | n + 1, p => skip n p.next

/-- The characters of a class that follow. -/
def run (f : Char → Bool) (p : Place) : Chars := p.rest.takeWhile f

/-- The place after the characters of a class that follow. -/
def skipWhile (f : Char → Bool) (p : Place) : Place := p.skip (p.run f).length

/-- The end of a line, if one stands here, and the place after it. All ends of lines are the same
but for the separators of lines and paragraphs, which stay what they are. -/
def lineBreak? (p : Place) : Option (Char × Place) :=
  match p.rest with
  | [] => none
  | c :: _ => if isBreak c then some (if c == '\u0085' then '\n' else c, p.next) else none

/-- Whether three of a character stand here, followed by white space or the end of the text. -/
def isTriple (c : Char) (p : Place) : Bool :=
  match p.rest with
  | a :: b :: d :: rest => a == c && b == c && d == c && endsOr isSpace rest
  | _ => false

/-- Whether a mark that opens or closes a document stands here. -/
def isDocumentMark (p : Place) : Bool := p.isTriple '-' || p.isTriple '.'

/-- The place after a comment, if one stands here. -/
def skipComment (p : Place) : Place :=
  match p.rest with
  | '#' :: _ => p.skipWhile fun c => !isBreak c
  | _ => p

/-- The place behind the rest of a line that holds spaces and a comment at most. -/
def endLine (p : Place) : Reading Place :=
  let q := (p.skipWhile (· == ' ')).skipComment
  match q.lineBreak? with
  | some (_, r) => .ok r
  | none => if q.rest.isEmpty then .ok q else .error .malformed

end Place

/-- Line breaks as they count inside of a scalar that goes on: one newline is a space, of more the
first is dropped, and a separator of lines or paragraphs stays. -/
def folded (first : Char) (more : Chars) : Chars :=
  if first != '\n' then first :: more else if more.isEmpty then [' '] else more

/-- Whether a text has only characters that may occur in YAML. -/
def isAllowed (c : Char) : Bool :=
  let n := c.toNat
  n == 9 || n == 10 || (32 ≤ n && n ≤ 126) || n == 0x85 || (0xa0 ≤ n && n ≤ 0xfffd)
    || 0x10000 ≤ n

/-- Carriage returns, alone or before a newline, become newlines. -/
def plainNewlines : Chars → Chars
  | '\r' :: '\n' :: s => '\n' :: plainNewlines s
  | c :: s => (if c == '\r' then '\n' else c) :: plainNewlines s
  | [] => []

end Downmark.Yaml
