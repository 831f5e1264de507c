import Downmark.Text.Classes
import Downmark.Text.Table.Case
/-!
Lower-casing and case folding of whole texts.

A capital sigma is written in its final form at the end of a word: after a cased character and
before none, characters that case ignores being skipped on both sides.
-/

set_option autoImplicit false

namespace Downmark.Text

/-- The character that a table of runs maps a character to. -/
def mapRuns (runs : List CaseRun) (c : Char) : Char :=
  match runs.find? fun run =>
      run.first ≤ c.toNat && c.toNat ≤ run.last && (c.toNat - run.first) % run.step == 0 with
  | some run => Char.ofNat ((c.toNat : Int) + run.shift).toNat
  | none => c

def isCased (c : Char) : Bool := isAsciiLetter c || (128 ≤ c.toNat && inRanges casedRanges c)

/-- Characters across which a word is read when its case is decided. -/
def isCaseIgnorable (c : Char) : Bool :=
  ['\'', '.', ':', '^', '`'].contains c || (128 ≤ c.toNat && inRanges caseIgnorableRanges c)

/-- Whether the first character that case does not ignore has a case. -/
def meetsCased (s : Chars) : Bool :=
  match s.dropWhile isCaseIgnorable with
  | [] => false
  | c :: _ => isCased c

/-- Lower-casing of one character between the text before it, nearest first, and after it. -/
def lowerChar (before : Chars) (c : Char) (after : Chars) : Chars :=
  if c.toNat < 128 then [if 'A' ≤ c && c ≤ 'Z' then Char.ofNat (c.toNat + 32) else c]
  else if c == 'Σ' then [if meetsCased before && !meetsCased after then 'ς' else 'σ']
  else if c == 'İ' then ['i', '\u0307']
  else [mapRuns lowerRuns c]

/-- Lower-casing of the rest of a text whose beginning is given in reverse. -/
def lowerFrom : Chars → Chars → Chars
  | _, [] => []
  | before, c :: after => lowerChar before c after ++ lowerFrom (c :: before) after

/-- The text in lower case. -/
def lower (s : Chars) : Chars := lowerFrom [] s

/-- Case folding of one character. -/
def foldChar (c : Char) : Chars :=
  if c.toNat < 128 then [if 'A' ≤ c && c ≤ 'Z' then Char.ofNat (c.toNat + 32) else c]
  else match foldExpansions.lookup c.toNat with
    | some codes => codes.map Char.ofNat
    | none => [mapRuns foldRuns c]

/-- The text with all differences of case removed. -/
def fold (s : Chars) : Chars := s.flatMap foldChar

end Downmark.Text
