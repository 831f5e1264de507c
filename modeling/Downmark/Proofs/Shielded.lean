import Downmark.Proofs.Spelled
/-!
A character is shielded if an odd number of backslashes stands right before it. Main statement: in a
text that is spelled, whatever must be escaped is shielded.
-/

set_option autoImplicit false

namespace Downmark.Escape

def Shielded (before : Chars) : Prop := (Text.ending (· == '\\') before).length % 2 = 1

theorem shielded_nil : ¬ Shielded [] := by
  simp [Shielded, Text.ending]

theorem shielded_last (s : Chars) (c : Char) : Shielded (s ++ [c]) ↔ c = '\\' ∧ ¬ Shielded s := by
  by_cases slash : c = '\\'
  · subst slash
    have longer : (Text.ending (· == '\\') (s ++ ['\\'])).length = (Text.ending (· == '\\') s).length + 1 := by
      simp [Text.ending]
    simp only [Shielded, longer, true_and]
    omega
  · simp [Shielded, Text.ending, slash]

-- A spelled text begins where an even number of backslashes ends, and each of its characters leaves
-- the count even again: a plain one is no backslash, and a slashed one stands behind exactly one.
theorem spelled_shields (special : Chars) (start : Bool) (s w : Chars) (spelled : Spelled special start s w)
    (slash : '\\' ∈ special) (ahead before : Chars) (c : Char) (after : Chars) (even : ¬ Shielded ahead)
    (place : w = before ++ c :: after) (other : c ≠ '\\') (needed : c ∈ special ∨ opensMarkup c after) :
    Shielded (ahead ++ before) := by
  induction spelled generalizing ahead before with
  | nil => simp at place
  | plain start d s w common closed _ ih =>
      have unslashed : d ≠ '\\' := fun same => common (same ▸ slash)
      cases before with
      | nil =>
          obtain ⟨rfl, rfl⟩ := List.cons.inj place
          rcases needed with listed | opens
          · exact absurd listed common
          · simp [closed] at opens
      | cons x before =>
          obtain ⟨rfl, rest⟩ := List.cons.inj place
          have next : ¬ Shielded (ahead ++ [d]) := by simp [shielded_last, unslashed]
          simpa using ih (ahead ++ [d]) before next rest
  | slashed start d s w _ _ ih =>
      have odd : Shielded (ahead ++ ['\\']) := (shielded_last ahead '\\').mpr ⟨rfl, even⟩
      cases before with
      | nil =>
          obtain ⟨rfl, -⟩ := List.cons.inj place
          exact absurd rfl other
      | cons x before =>
          obtain ⟨rfl, rest⟩ := List.cons.inj place
          cases before with
          | nil => exact odd
          | cons y before =>
              obtain ⟨rfl, tail⟩ := List.cons.inj rest
              have next : ¬ Shielded (ahead ++ ['\\'] ++ [d]) := by
                rw [shielded_last]
                exact fun both => both.2 odd
              simpa using ih (ahead ++ ['\\'] ++ [d]) before next tail

end Downmark.Escape
