import Downmark.Gfm.Table
import Downmark.Proofs.Shielded
import Downmark.Proofs.Stacked
/-!
Pipes in a text, counted by the backslashes before them. One is shielded behind an odd number of backslashes, and open
otherwise. Main statement: as a pipe of the content gets one more backslash in a cell, the text of the cell has as many
open pipes as its content has shielded ones.
-/

set_option autoImplicit false

namespace Downmark

namespace Escape

instance (before : Chars) : Decidable (Shielded before) := inferInstanceAs (Decidable (_ = _))

theorem shielded_append (x y s : Chars) (same : Shielded x ↔ Shielded y) : Shielded (x ++ s) ↔ Shielded (y ++ s) := by
  induction s generalizing x y with
  | nil => rwa [List.append_nil, List.append_nil]
  | cons c s ih =>
      rw [List.append_cons, List.append_cons y]
      exact ih _ _ (by rw [shielded_last, shielded_last, same])

theorem shielded_past (s : Chars) (c : Char) (other : c ≠ '\\') : Shielded (c :: s) ↔ Shielded s :=
  shielded_append [c] [] s (iff_of_false (fun odd => other ((shielded_last [] c).mp odd).1) shielded_nil)

theorem shielded_pair (s : Chars) (c : Char) : Shielded ('\\' :: c :: s) ↔ Shielded s := by
  have odd : Shielded ['\\'] := (shielded_last [] '\\').mpr ⟨rfl, shielded_nil⟩
  exact shielded_append ['\\', c] [] s
    (iff_of_false (fun both => ((shielded_last ['\\'] c).mp both).2 odd) shielded_nil)

theorem open_free (x s : Chars) (start : ¬ Shielded x) (free : '\\' ∉ s) : ¬ Shielded (x ++ s) := by
  induction s generalizing x with
  | nil => rwa [List.append_nil]
  | cons c s ih =>
      rw [List.mem_cons, not_or] at free
      rw [List.append_cons]
      exact ih _ (by simp [shielded_last, Ne.symm free.1]) free.2

end Escape

namespace Gfm

open Escape

/-- How many pipes of a text are shielded, or are not, given what stands before it. -/
def pipes (shielded : Bool) (before : Chars) : Chars → Nat
  | [] => 0
  | c :: s =>
    (if c = '|' ∧ decide (Shielded before) = shielded then 1 else 0) + pipes shielded (before ++ [c]) s

variable (p : Bool)

theorem pipes_append (x a b : Chars) : pipes p x (a ++ b) = pipes p x a + pipes p (x ++ a) b := by
  induction a generalizing x with
  | nil => simp [pipes]
  | cons c a ih =>
      rw [List.cons_append, pipes, pipes, ih, List.append_assoc, Nat.add_assoc]
      rfl

theorem pipes_same (x y s : Chars) (same : Shielded x ↔ Shielded y) : pipes p x s = pipes p y s := by
  induction s generalizing x y with
  | nil => rfl
  | cons c s ih => rw [pipes, pipes, ih _ _ (shielded_append x y [c] same), decide_eq_decide.mpr same]

theorem pipes_free (x s : Chars) (free : '|' ∉ s) : pipes p x s = 0 := by
  induction s generalizing x with
  | nil => rfl
  | cons c s ih =>
      rw [List.mem_cons, not_or] at free
      rw [pipes, ih _ free.2, if_neg fun pipe => free.1 pipe.1.symm]

-- The pipes of a text one by one, each with what stands before it.
theorem no_pipes_iff (x s : Chars) :
    pipes p x s = 0 ↔ ∀ a b, s = a ++ '|' :: b → decide (Shielded (x ++ a)) ≠ p := by
  induction s generalizing x with
  | nil => simp [pipes]
  | cons c s ih =>
      rw [pipes, Nat.add_eq_zero_iff, ih]
      constructor
      · rintro ⟨first, later⟩ a b whole
        cases a with
        | nil =>
            obtain ⟨rfl, -⟩ := List.cons.inj whole
            rw [List.append_nil]
            exact fun here => by simp [here] at first
        | cons d a =>
            obtain ⟨rfl, rest⟩ := List.cons.inj whole
            rw [List.append_cons]
            exact later a b rest
      · intro each
        refine ⟨if_neg ?_, fun a b rest => ?_⟩
        · rintro ⟨rfl, here⟩
          exact each [] s rfl (by rwa [List.append_nil])
        · have next := each (c :: a) b (by rw [rest, List.cons_append])
          rwa [List.append_cons] at next

theorem pipes_replaced (x y s : Chars) (same : Shielded x ↔ Shielded y) :
    pipes p x (Text.replaceChar '\n' [' '] s) = pipes p y s := by
  induction s generalizing x y with
  | nil => rfl
  | cons c s ih =>
      by_cases newline : c = '\n'
      · subst newline
        have apart : Shielded (x ++ [' ']) ↔ Shielded (y ++ ['\n']) := by simp [shielded_last]
        change pipes p x (' ' :: Text.replaceChar '\n' [' '] s) = _
        rw [pipes, pipes, ih _ _ apart]
        rfl
      · have kept : Text.replaceChar '\n' [' '] (c :: s) = c :: Text.replaceChar '\n' [' '] s := by
          simp [Text.replaceChar, newline]
        rw [kept, pipes, pipes, ih _ _ (shielded_append x y [c] same), decide_eq_decide.mpr same]

theorem blank_other (s : Chars) (blank : ∀ c ∈ s, Text.isBlank c = true) (c : Char) (solid : Text.isBlank c = false) :
    c ∉ s := by
  intro member
  cases solid.symm.trans (blank c member)

theorem pipes_stripped (x s : Chars) (start : ¬ Shielded x) : pipes p x (Text.strip s) = pipes p x s := by
  obtain ⟨front, whole, first⟩ := Text.trim_start_run Text.isBlank s
  obtain ⟨back, rest, last⟩ := Text.trim_end_run Text.isBlank (Text.trimStart Text.isBlank s)
  have led : Shielded (x ++ front) ↔ Shielded x :=
    iff_of_false (open_free x front start (blank_other front first '\\' rfl)) start
  have trimmed : Text.strip s = Text.trimEnd Text.isBlank (Text.trimStart Text.isBlank s) := rfl
  rw [trimmed]
  conv => rhs; rw [whole, rest]
  rw [pipes_append, pipes_append, pipes_free p x front (blank_other front first '|' rfl),
    pipes_free p _ back (blank_other back last '|' rfl), pipes_same p _ x _ led, Nat.zero_add, Nat.add_zero]

-- The backslash that a pipe gets makes an open pipe of a shielded one, and the other way round.
theorem pipes_backslashed (x y s : Chars) (same : Shielded x ↔ Shielded y) :
    pipes p x (Text.backslash ['|'] s) = pipes (!p) y s := by
  induction s generalizing x y with
  | nil => rfl
  | cons c s ih =>
      by_cases pipe : c = '|'
      · subst pipe
        have turned : decide (Shielded (x ++ ['\\'])) = !decide (Shielded y) := by
          rw [← decide_not, decide_eq_decide, shielded_last, same]
          simp
        have behind (z : Chars) : ¬ Shielded (z ++ ['|']) := by simp [shielded_last]
        have apart : Shielded (x ++ ['\\'] ++ ['|']) ↔ Shielded (y ++ ['|']) := iff_of_false (behind _) (behind _)
        have slash : ¬ ('\\' = '|' ∧ decide (Shielded x) = p) := fun both => absurd both.1 (by decide)
        change pipes p x ('\\' :: '|' :: Text.backslash ['|'] s) = _
        rw [pipes, pipes, pipes, ih _ _ apart, turned, if_neg slash, Nat.zero_add]
        cases p <;> cases decide (Shielded y) <;> rfl
      · have kept : Text.backslash ['|'] (c :: s) = c :: Text.backslash ['|'] s := by simp [Text.backslash, pipe]
        rw [kept, pipes, pipes, ih _ _ (shielded_append x y [c] same), if_neg fun here => pipe here.1,
          if_neg fun here => pipe here.1]

theorem cell_text_pipes (x content : Chars) (start : ¬ Shielded x) :
    pipes false x (cellText content) = pipes true [] content := by
  have empty : Shielded x ↔ Shielded [] := iff_of_false start shielded_nil
  rw [cellText, pipes_backslashed false x [] _ empty, Bool.not_false, pipes_stripped true [] _ shielded_nil,
    pipes_replaced true [] [] content Iff.rfl]

theorem shielded_newlines (x : Chars) (n : Nat) : Shielded (x ++ List.replicate n '\n') ↔ n = 0 ∧ Shielded x := by
  cases n with
  | zero => simp
  | succ n =>
      rw [List.replicate_succ', ← List.append_assoc, shielded_last]
      simp

-- Where two texts are joined, there are newlines just if there are some in one of them.
theorem joined_same (a b : Chars) : (Shielded (join a b) ↔ Shielded (a ++ b)) ∧
    pipes p [] (join a b) = pipes p [] (a ++ b) := by
  obtain ⟨i, j, k, left, right, joined, -, seam⟩ := join_runs a b
  have free (n : Nat) : '|' ∉ List.replicate n '\n' := fun member => by cases List.eq_of_mem_replicate member
  have plain : a ++ b = Text.trimEnd Text.isNewline a ++ (List.replicate (i + j) '\n' ++ Text.trimStart Text.isNewline b) := by
    conv => lhs; rw [left, right]
    rw [← List.replicate_append_replicate]
    simp only [List.append_assoc]
  have between : Shielded (Text.trimEnd Text.isNewline a ++ List.replicate k '\n') ↔
      Shielded (Text.trimEnd Text.isNewline a ++ List.replicate (i + j) '\n') := by
    rw [shielded_newlines, shielded_newlines, seam]
  rw [joined, plain]
  constructor
  · rw [← List.append_assoc, ← List.append_assoc]
    exact shielded_append _ _ _ between
  · simp only [pipes_append, pipes_free p _ _ (free _), List.nil_append]
    rw [pipes_same p _ _ _ between]

end Gfm

end Downmark
