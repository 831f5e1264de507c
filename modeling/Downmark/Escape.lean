import Downmark.Text.Classes
/-!
Escaping: literal text is written so that Markdown reads it as the same literal text.

Some characters are escaped wherever they stand, angle brackets and ampersands where they would
open a tag or a character reference, and others at the start of a line only.
-/

set_option autoImplicit false

namespace Downmark.Escape

/-- Characters that mean something wherever they stand. -/
def inlineSpecial : Chars := ['\\', '*', '_', '`', '[', ']', '(', ')', '~']

/-- All characters that mean something anywhere. -/
def allSpecial : Chars :=
  ['\\', '*', '_', '`', '[', ']', '(', ')', '~', '#', '+', '-', '=', '>', '!', '|']

/-- Whether what follows an angle bracket makes it open a tag, a comment or a declaration. -/
def opensTag : Chars → Bool
  | c :: _ => Text.isAsciiLetter c || c == '/' || c == '!' || c == '?'
  | [] => false

/-- Whether a text has at least one character of a class at its start, and a semicolon right after
the last one. -/
def closedRun (p : Char → Bool) : Chars → Bool
  | [] => false
  | c :: s => p c && (s.dropWhile p).head? == some ';'

/-- Whether what follows an ampersand makes it open a character reference. -/
def opensReference : Chars → Bool
  | '#' :: 'x' :: s => closedRun Text.isHexDigit s
  | '#' :: 'X' :: s => closedRun Text.isHexDigit s
  | '#' :: s => closedRun Text.isAsciiDigit s
  | s => closedRun Text.isWord s

/-- Puts a backslash before every `special` after which `opens` holds. -/
def escapeWhere (special : Char) (opens : Chars → Bool) : Chars → Chars
  | [] => []
  | c :: s =>
    if c == special && opens s then '\\' :: c :: escapeWhere special opens s
    else c :: escapeWhere special opens s

/-- Escapes what would open a tag or a character reference. -/
def escapeHtml (s : Chars) : Chars := escapeWhere '&' opensReference (escapeWhere '<' opensTag s)

/-- Whether a marker may end here: at a gap or at the end of the line. -/
def endsMarker : Chars → Bool
  | [] => true
  | c :: _ => Text.isGap c

/-- Whether a line starts with one to six number signs as a heading does. -/
def opensHeading (line : Chars) : Bool :=
  let signs := line.takeWhile (· == '#')
  1 ≤ signs.length && signs.length ≤ 6 && endsMarker (line.dropWhile (· == '#'))

/-- Splits a line that starts with digits and a period into the digits and what follows the
period. -/
def numberedLine? (line : Chars) : Option (Chars × Chars) :=
  match line.takeWhile Text.isDecimal, line.dropWhile Text.isDecimal with
  | [], _ => none
  | digits, '.' :: rest => some (digits, rest)
  | _, _ => none

/-- Escapes what opens a block at the start of a line. -/
def escapeLine (line : Chars) : Chars :=
  match line with
  | '#' :: _ => if opensHeading line then '\\' :: line else line
  | '-' :: _ => '\\' :: line
  | '+' :: rest => if endsMarker rest then '\\' :: line else line
  | '>' :: _ => '\\' :: line
  | '=' :: _ => '\\' :: line
  | _ =>
    match numberedLine? line with
    | some (digits, rest) => if endsMarker rest then digits ++ '\\' :: '.' :: rest else line
    | none => line

/-- Escapes the period of a number at the start of a line. -/
def escapeNumber (line : Chars) : Chars :=
  match numberedLine? line with
  | some (digits, rest) => digits ++ '\\' :: '.' :: rest
  | none => line

/-- Changes every line of a text. -/
def onLines (f : Chars → Chars) (s : Chars) : Chars := Text.unlines ((Text.lines s).map f)

/-- Whether what is already on the line is nothing but the number of a list item. -/
def isNumberSoFar (ahead : Chars) : Bool :=
  let digits := Text.trimStart Text.isGap ahead
  !digits.isEmpty && digits.all Text.isDecimal

/-- Whether a text begins with a period that would end the marker of a list item. -/
def startsWithMarkerEnd : Chars → Bool
  | '.' :: [] => true
  | '.' :: c :: _ => Text.isGap c || c == '\n'
  | _ => false

/-- Escapes a leading period where the digits before it are already on the line. -/
def escapeSplitMarker (ahead escaped : Chars) : Chars :=
  if isNumberSoFar ahead && startsWithMarkerEnd escaped then '\\' :: escaped else escaped

/-- Escapes literal text; `ahead` is what is already on the line that the text continues. -/
def markdown (s ahead : Chars) : Chars :=
  escapeSplitMarker ahead
    (onLines escapeLine (escapeHtml (Text.backslash inlineSpecial s)))

/-- Escapes every character that means something, and keeps white space as it is. -/
def preformatted (s ahead : Chars) : Chars :=
  escapeSplitMarker ahead
    (onLines escapeNumber (escapeHtml (Text.backslash allSpecial s)))

end Downmark.Escape
