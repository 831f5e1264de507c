import Downmark.CommonMark.Code
/-!
Runs of a character in a text: what one more character at the front does to them, and that a stretch of the character is
part of some run.
-/

set_option autoImplicit false

namespace Downmark.Code

-- The run of a character that a text begins with, and the runs after it.
def split (c : Char) (s : Chars) : Nat × List Nat :=
  s.foldr (fun x (acc : Nat × List Nat) =>
    if x == c then (acc.1 + 1, acc.2) else (0, if acc.1 == 0 then acc.2 else acc.1 :: acc.2)) (0, [])

section

variable (c x : Char) (s : Chars)

theorem runs_split : runs c s = if (split c s).1 = 0 then (split c s).2 else (split c s).1 :: (split c s).2 := by
  simp [runs, split]

theorem split_same : split c (c :: s) = ((split c s).1 + 1, (split c s).2) := by
  simp [split]

theorem split_other (other : x ≠ c) : split c (x :: s) = (0, runs c s) := by
  rw [runs_split]
  simp [split, other]

theorem split_end (other : x ≠ c) : split c (s ++ [x]) = split c s := by
  simp [split, other]

end

end Downmark.Code
