import Downmark.Reference.Collector
/-!
What labels are compared by. A number is its own key, and a number that is put behind a label is put
behind its key. Main statements: the labels that are tried in turn for a definition all have different
keys, and so have numbers.
-/

set_option autoImplicit false

namespace Downmark.Text

theorem of_nat_injective : Function.Injective ofNat := by
  intro a b same
  have read (n : Nat) : Nat.ofDigitChars 10 (ofNat n) 0 = n :=
    Nat.ofDigitChars_toDigits (by decide) (by decide)
  rw [← read a, same, read b]

theorem of_nat_ne_nil (n : Nat) : ofNat n ≠ [] := Nat.toDigits_ne_nil

theorem of_nat_digits (n : Nat) : ∀ c ∈ ofNat n, '0' ≤ c ∧ c ≤ '9' := by
  intro c member
  have digit := Nat.isDigit_of_mem_toDigits (by decide) (by decide) member
  simpa [Char.isDigit, Char.le_def] using digit

theorem digit_not_blank (c : Char) (digit : '0' ≤ c ∧ c ≤ '9') : isBlank c = false := by
  have low : 48 ≤ c.toNat := digit.1
  have high : c.toNat ≤ 57 := digit.2
  simp only [isBlank, Bool.or_eq_false_iff, Bool.and_eq_false_iff, decide_eq_false_iff_not,
    beq_eq_false_iff_ne]
  omega

theorem digit_folds (c : Char) (digit : '0' ≤ c ∧ c ≤ '9') : foldChar c = [c] := by
  have low : 48 ≤ c.toNat := digit.1
  have high : c.toNat ≤ 57 := digit.2
  have upper : ¬ 'A' ≤ c := fun le => by
    have : 65 ≤ c.toNat := le
    omega
  simp [foldChar, show c.toNat < 128 by omega, upper]

theorem of_nat_folds (n : Nat) : fold (ofNat n) = ofNat n := by
  have kept (s : Chars) (digits : ∀ c ∈ s, '0' ≤ c ∧ c ≤ '9') : fold s = s := by
    induction s with
    | nil => rfl
    | cons c s ih =>
        have tail := ih fun d member => digits d (List.mem_cons_of_mem c member)
        rw [fold, List.flatMap_cons, digit_folds c (digits c List.mem_cons_self), ← fold, tail]
        rfl
  exact kept (ofNat n) (of_nat_digits n)

theorem fold_append (a b : Chars) : fold (a ++ b) = fold a ++ fold b := List.flatMap_append

/-- What a character adds to the words behind it, the first of them still open. -/
def gather (c : Char) (found : Chars × List Chars) : Chars × List Chars :=
  if isBlank c then ([], pushWord found.1 found.2) else (c :: found.1, found.2)

theorem words_gathered (s : Chars) :
    words s = pushWord (s.foldr gather ([], [])).1 (s.foldr gather ([], [])).2 := rfl

theorem push_word_append (w : Chars) (a b : List Chars) :
    pushWord w (a ++ b) = pushWord w a ++ b := by
  unfold pushWord
  split <;> rfl

-- Words are gathered from the end of a text, so those of what follows are there first.
theorem gathered_before (s : Chars) (later : List Chars) :
    s.foldr gather ([], later) =
      ((s.foldr gather ([], [])).1, (s.foldr gather ([], [])).2 ++ later) := by
  induction s with
  | nil => rfl
  | cons c s ih =>
      rw [List.foldr_cons, List.foldr_cons, ih]
      unfold gather
      split
      · rw [push_word_append]
      · rfl

theorem words_blank (c : Char) (blank : isBlank c = true) (a b : Chars) :
    words (a ++ c :: b) = words a ++ words b := by
  have opened : (c :: b).foldr gather ([], []) = ([], words b) := by
    rw [List.foldr_cons, gather, if_pos blank]
    rfl
  rw [words_gathered, List.foldr_append, opened, gathered_before, push_word_append, ← words_gathered]

theorem words_space (a b : Chars) : words (a ++ ' ' :: b) = words a ++ words b := words_blank ' ' rfl a b

theorem words_solid (s : Chars) (some : s ≠ []) (solid : ∀ c ∈ s, isBlank c = false) :
    words s = [s] := by
  have gathered : s.foldr gather ([], []) = (s, []) := by
    clear some
    induction s with
    | nil => rfl
    | cons c s ih =>
        rw [List.foldr_cons, ih fun d member => solid d (List.mem_cons_of_mem c member), gather,
          solid c List.mem_cons_self]
        rfl
  rw [words_gathered, gathered, pushWord, if_neg (by simpa using some)]

theorem words_of_nat (n : Nat) : words (ofNat n) = [ofNat n] :=
  words_solid _ (of_nat_ne_nil n) fun c member => digit_not_blank c (of_nat_digits n c member)

theorem intercalate_last (ws : List Chars) (w : Chars) : [' '].intercalate (ws ++ [w]) =
    [' '].intercalate ws ++ (if ws = [] then [] else [' ']) ++ w := by
  induction ws with
  | nil => simp [List.intercalate]
  | cons v ws ih =>
      cases ws with
      | nil => simp [List.intercalate]
      | cons u ws =>
          have step (rest : List Chars) : [' '].intercalate (v :: u :: rest) =
              v ++ ' ' :: [' '].intercalate (u :: rest) := by simp [List.intercalate]
          rw [List.cons_append, List.cons_append, step, ← List.cons_append, ih, step]
          simp

theorem one_spaced_number (label : Chars) (n : Nat) : oneSpaced (label ++ ' ' :: ofNat n) =
    oneSpaced label ++ (if words label = [] then [] else [' ']) ++ ofNat n := by
  rw [oneSpaced, words_space, words_of_nat, intercalate_last]
  rfl

end Downmark.Text

namespace Downmark.Reference

open Text

theorem number_key (n : Nat) : labelKey (ofNat n) = ofNat n := by
  rw [labelKey, oneSpaced, words_of_nat, List.intercalate_singleton, of_nat_folds]

theorem numbered_key (label : Chars) (n : Nat) : labelKey (label ++ ' ' :: ofNat n) =
    labelKey label ++ (if words label = [] then [] else [' ']) ++ ofNat n := by
  have space : fold (if words label = [] then [] else [' ']) =
      if words label = [] then [] else [' '] := by split <;> rfl
  rw [labelKey, one_spaced_number, fold_append, fold_append, of_nat_folds, space, ← labelKey]

theorem number_keys_injective (start : Nat) :
    Function.Injective fun n => labelKey (ofNat (start + n)) := by
  intro a b same
  simp only [number_key] at same
  have := of_nat_injective same
  omega

theorem candidate_keys_injective (label : Chars) :
    Function.Injective fun n => labelKey (Collector.candidate label n) := by
  -- A number behind the label makes the key longer, so only the label itself has its key.
  have longer (n : Nat) : labelKey (label ++ ' ' :: ofNat (n + 1)) ≠ labelKey label := fun same => by
    rw [numbered_key, List.append_assoc] at same
    exact of_nat_ne_nil _ (List.append_eq_nil_iff.mp (List.append_right_eq_self.mp same)).2
  intro a b same
  cases a with
  | zero =>
      cases b with
      | zero => rfl
      | succ b => exact absurd same.symm (longer (b + 1))
  | succ a =>
      cases b with
      | zero => exact absurd same (longer (a + 1))
      | succ b =>
          have keys := (numbered_key label (a + 2)).symm.trans (Eq.trans same (numbered_key label (b + 2)))
          have := of_nat_injective (List.append_cancel_left keys)
          omega

end Downmark.Reference
