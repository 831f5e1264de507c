/-!
Text as a list of characters, and the few operations on it that the rest of the library is
written with: trimming by a class of characters, lines, and prefixes.

Main statements: joining the lines of a text gives the text back, and what follows the beginning of
a text is exactly what was appended to it.
-/

set_option autoImplicit false

namespace Downmark

/-- Text, character by character. -/
abbrev Chars := List Char

namespace Text

/-- The text without the leading characters of a class. -/
def trimStart (p : Char → Bool) (s : Chars) : Chars := s.dropWhile p

/-- The text without the trailing characters of a class. -/
def trimEnd (p : Char → Bool) (s : Chars) : Chars := (s.reverse.dropWhile p).reverse

/-- The text without the characters of a class at either end. -/
def trim (p : Char → Bool) (s : Chars) : Chars := trimEnd p (trimStart p s)

/-- The trailing characters of a class. -/
def ending (p : Char → Bool) (s : Chars) : Chars := (s.reverse.takeWhile p).reverse

def isNewline (c : Char) : Bool := c == '\n'

/-- A space or a tab: what may stand between words of one line. -/
def isGap (c : Char) : Bool := c == ' ' || c == '\t'

/-- Puts a character in front of the first line. -/
def consLine (c : Char) : List Chars → List Chars
  | [] => [[c]]
  | line :: rest => (c :: line) :: rest

/-- The lines of a text. A text always has at least one, and a final newline opens an empty one. -/
def lines (s : Chars) : List Chars :=
  s.foldr (fun c rest => if c == '\n' then [] :: rest else consLine c rest) [[]]

/-- The lines, one after the other, with a newline between two of them. -/
def unlines (ls : List Chars) : Chars := ['\n'].intercalate ls

/-- What follows `head` in a text that begins with it. -/
def strip? : Chars → Chars → Option Chars
  | [], s => some s
  | _ :: _, [] => none
  | a :: head, c :: s => if a == c then strip? head s else none

/-- Whether a text begins with `head`. -/
def startsWith (head s : Chars) : Bool := (strip? head s).isSome

/-- Whether `part` occurs in a text. -/
def contains (part : Chars) : Chars → Bool
  | [] => part.isEmpty
  | c :: s => startsWith part (c :: s) || contains part s

/-- Writes `fresh` for every occurrence of a character. -/
def replaceChar (old : Char) (fresh : Chars) (s : Chars) : Chars :=
  s.flatMap fun c => if c == old then fresh else [c]

/-- Puts a backslash before every character of a set. -/
def backslash (special : Chars) (s : Chars) : Chars :=
  s.flatMap fun c => if special.contains c then ['\\', c] else [c]

/-- A text written `n` times over. -/
def times (n : Nat) (s : Chars) : Chars := (List.replicate n s).flatten

/-- A run of `n` spaces. -/
def spaces (n : Nat) : Chars := List.replicate n ' '

theorem lines_nil : lines [] = [[]] := rfl

theorem lines_cons (c : Char) (s : Chars) :
    lines (c :: s) = if c == '\n' then [] :: lines s else consLine c (lines s) := rfl

theorem lines_ne_nil (s : Chars) : lines s ≠ [] := by
  cases s with
  | nil => simp [lines_nil]
  | cons c r =>
    rw [lines_cons]
    split
    · simp
    · cases lines r <;> simp [consLine]

theorem unlines_consLine (c : Char) (ls : List Chars) (some : ls ≠ []) :
    unlines (consLine c ls) = c :: unlines ls := by
  cases ls with
  | nil => exact absurd rfl some
  | cons l r => cases r <;> simp [consLine, unlines, List.intercalate, List.intersperse]

/-- Splitting into lines loses nothing. -/
theorem unlines_lines (s : Chars) : unlines (lines s) = s := by
  induction s with
  | nil => rfl
  | cons c r ih =>
    rw [lines_cons]
    split
    · rename_i same
      have : c = '\n' := by simpa using same
      subst this
      cases h : lines r with
      | nil => exact absurd h (lines_ne_nil r)
      | cons l t =>
        rw [h] at ih
        simp [unlines, List.intercalate, List.intersperse] at ih ⊢
        exact ih
    · rw [unlines_consLine c _ (lines_ne_nil r), ih]

theorem strip_append (head s : Chars) : strip? head (head ++ s) = some s := by
  induction head with
  | nil => rfl
  | cons a r ih => simp [strip?, ih]

theorem eq_append_of_strip {head s rest : Chars} (found : strip? head s = some rest) :
    s = head ++ rest := by
  induction head generalizing s with
  | nil => simpa [strip?] using found
  | cons a r ih =>
    cases s with
    | nil => simp [strip?] at found
    | cons c t =>
      by_cases same : a = c
      · subst same
        simp only [strip?, beq_self_eq_true, if_true] at found
        simp [ih found]
      · simp [strip?, same] at found

end Text

end Downmark
