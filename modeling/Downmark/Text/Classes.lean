import Downmark.Text.Basic
import Downmark.Text.Table.Word
import Downmark.Text.Table.Digit
import Downmark.Text.Table.Assigned
import Downmark.Text.Table.Width
/-!
Classes of characters: decimal digits and their values, parts of words, printable characters and
the columns that a character takes.
-/

set_option autoImplicit false

namespace Downmark.Text

/-- Whether a character lies in one of some closed ranges of code points. -/
def inRanges (ranges : List (Nat × Nat)) (c : Char) : Bool :=
  ranges.any fun range => range.1 ≤ c.toNat && c.toNat ≤ range.2

def isAsciiDigit (c : Char) : Bool := '0' ≤ c && c ≤ '9'

def isAsciiLetter (c : Char) : Bool := ('a' ≤ c && c ≤ 'z') || ('A' ≤ c && c ≤ 'Z')

def isHexDigit (c : Char) : Bool :=
  isAsciiDigit c || ('a' ≤ c && c ≤ 'f') || ('A' ≤ c && c ≤ 'F')

/-- The value of a hexadecimal digit. -/
def hexValue (c : Char) : Nat :=
  if isAsciiDigit c then c.toNat - '0'.toNat
  else if 'a' ≤ c then c.toNat - 'a'.toNat + 10
  else c.toNat - 'A'.toNat + 10

/-- The value of a decimal digit of any script. -/
def decimal? (c : Char) : Option Nat :=
  if isAsciiDigit c then some (c.toNat - '0'.toNat)
  else if c.toNat < 128 then none
  else (decimalZeros.find? fun base => base ≤ c.toNat && c.toNat ≤ base + 9).map (c.toNat - ·)

/-- A decimal digit of any script. -/
def isDecimal (c : Char) : Bool := (decimal? c).isSome

/-- A digit in the wide sense: decimal digits, superscripts, circled digits. -/
def isDigit (c : Char) : Bool := isDecimal c || inRanges otherDigitRanges c

/-- A part of a word: letters and numbers of any script, and the underscore. -/
def isWord (c : Char) : Bool :=
  isAsciiLetter c || isAsciiDigit c || c == '_' || (128 ≤ c.toNat && inRanges wordRanges c)

/-- A character that leaves a mark, or the plain space. -/
def isPrintable (c : Char) : Bool :=
  if c.toNat < 128 then 32 ≤ c.toNat && c.toNat < 127
  else !inRanges unassignedRanges c && !inRanges unprintedRanges c

/-- Columns that a character takes: two for wide and full-width characters and for code points
without a character, one for all others. -/
def columns (c : Char) : Nat :=
  if 128 ≤ c.toNat && (inRanges wideRanges c || inRanges unassignedRanges c) then 2 else 1

/-- Columns that a text takes. -/
def displayWidth (s : Chars) : Nat := s.foldl (fun sum c => sum + columns c) 0

end Downmark.Text
