import Downmark.Text.Basic
/-!
White space in the wide sense: every character that separates words in some script.
-/

set_option autoImplicit false

namespace Downmark.Text

/-- White space: the ASCII controls for lines and separators, and the spaces of Unicode. The zero
width space and the byte order mark are none. -/
def isBlank (c : Char) : Bool :=
  let n := c.toNat
  (9 ≤ n && n ≤ 13) || (28 ≤ n && n ≤ 32) || n == 0x85 || n == 0xa0 || n == 0x1680
    || (0x2000 ≤ n && n ≤ 0x200a) || n == 0x2028 || n == 0x2029 || n == 0x202f || n == 0x205f
    || n == 0x3000

/-- The text without white space at either end. -/
def strip (s : Chars) : Chars := trim isBlank s

/-- Whether a text has nothing but white space. -/
def isBlankText (s : Chars) : Bool := s.all isBlank

/-- Puts a finished word, if there is one, in front of the others. -/
def pushWord (word : Chars) (rest : List Chars) : List Chars :=
  if word.isEmpty then rest else word :: rest

/-- The words of a text: its longest stretches without white space. -/
def words (s : Chars) : List Chars :=
  let found := s.foldr (fun c (acc : Chars × List Chars) =>
    if isBlank c then ([], pushWord acc.1 acc.2) else (c :: acc.1, acc.2)) ([], [])
  pushWord found.1 found.2

/-- The words of a text with one space between two of them. -/
def oneSpaced (s : Chars) : Chars := [' '].intercalate (words s)

end Downmark.Text
