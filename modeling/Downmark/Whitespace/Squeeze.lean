import Downmark.Text.Basic
/-!
Runs of white space within a text, and the spaces at its two ends.
-/

set_option autoImplicit false

namespace Downmark.Whitespace

/-- White space that a browser shows as one space. -/
def isCollapsible (c : Char) : Bool := c == ' ' || c == '\r' || c == '\n' || c == '\t'

/-- Squeezes runs of white space; `inRun` tells that the character before was part of one. -/
def squeezeFrom (inRun : Bool) : Chars → Chars
  | [] => []
  | c :: s =>
    if isCollapsible c then
      if inRun then squeezeFrom true s else ' ' :: squeezeFrom true s
    else c :: squeezeFrom false s

/-- The text with one space for every run of white space. -/
def squeeze (s : Chars) : Chars := squeezeFrom false s

/-- Inline content split into leading gaps, core and trailing gaps. Delimiters do not work when
they touch white space on the inner side, so the gaps are written outside of them. -/
def flanking (s : Chars) : Chars × Chars × Chars :=
  let rest := Text.trimStart Text.isGap s
  (s.takeWhile Text.isGap, Text.trimEnd Text.isGap rest, Text.ending Text.isGap rest)

end Downmark.Whitespace
