import Mathlib.Algebra.Ring.Int.Defs
import Mathlib.Algebra.Ring.Nat
import Downmark.ListMarker
/-!
How large the numbers are that are read from a text. Main statements: none has more digits than are ever
written, so the first item of a list can always be numbered; and a row of nines is one less than a power.
-/

set_option autoImplicit false

namespace Downmark

namespace Text

theorem decimal_le (c : Char) (d : Nat) (digit : decimal? c = some d) : d ≤ 9 := by
  unfold decimal? at digit
  split at digit
  · rename_i ascii
    have high : c.toNat ≤ '9'.toNat := by
      have bounds : '0' ≤ c ∧ c ≤ '9' := by simpa [isAsciiDigit] using ascii
      exact bounds.2
    have value : '9'.toNat = 57 ∧ '0'.toNat = 48 := ⟨rfl, rfl⟩
    cases digit
    omega
  · split at digit
    · cases digit
    · obtain ⟨base, found, rfl⟩ := Option.map_eq_some_iff.mp digit
      have range : base ≤ c.toNat ∧ c.toNat ≤ base + 9 := by simpa using List.find?_some found
      omega

theorem digit_values_le (s : Chars) (ds : List Nat) (read : digitValues? s = some ds) : ∀ d ∈ ds, d ≤ 9 := by
  fun_induction digitValues? s generalizing ds with
  | case1 => cases read
  | case2 c =>
      obtain ⟨d, digit, rfl⟩ := Option.map_eq_some_iff.mp read
      simpa using decimal_le c d digit
  | case3 c rest ih | case4 c rest _ _ ih =>
      obtain ⟨d, digit, more⟩ := Option.bind_eq_some_iff.mp read
      obtain ⟨others, later, whole⟩ := Option.bind_eq_some_iff.mp more
      cases whole
      exact List.forall_mem_cons.mpr ⟨decimal_le c d digit, ih others later⟩

theorem of_digits_from (ds : List Nat) (n : Nat) (small : ∀ d ∈ ds, d ≤ 9) :
    ds.foldl (fun n d => 10 * n + d) n < (n + 1) * 10 ^ ds.length := by
  induction ds generalizing n with
  | nil => simp
  | cons d ds ih =>
      rw [List.forall_mem_cons] at small
      have next := ih (10 * n + d) small.2
      have more : (10 * n + d + 1) * 10 ^ ds.length ≤ (10 * (n + 1)) * 10 ^ ds.length :=
        Nat.mul_le_mul_right _ (by omega)
      rw [List.foldl_cons, List.length_cons, Nat.pow_succ]
      calc ds.foldl (fun n d => 10 * n + d) (10 * n + d)
          < (10 * n + d + 1) * 10 ^ ds.length := next
        _ ≤ (10 * (n + 1)) * 10 ^ ds.length := more
        _ = (n + 1) * (10 ^ ds.length * 10) := by rw [Nat.mul_comm 10, Nat.mul_assoc, Nat.mul_comm 10]

theorem nat_bounded (s : Chars) (n : Nat) (read : nat? s = some n) : n < 10 ^ maxIntegerDigits := by
  obtain ⟨ds, digits, value⟩ := Option.bind_eq_some_iff.mp read
  split at value
  · rename_i few
    cases value
    have below := of_digits_from ds 0 (digit_values_le s ds digits)
    rw [Nat.zero_add, Nat.one_mul] at below
    exact Nat.lt_of_lt_of_le below (Nat.pow_le_pow_right (by decide) few)
  · cases value

theorem int_bounded (s : Chars) (n : Int) (read : int? s = some n) : n.natAbs < 10 ^ maxIntegerDigits := by
  unfold int? at read
  split at read
  · obtain ⟨j, magnitude, rfl⟩ := Option.map_eq_some_iff.mp read
    obtain ⟨k, digits, cast⟩ := Option.bind_eq_some_iff.mp magnitude
    cases cast
    simpa using nat_bounded _ k digits
  · obtain ⟨k, digits, rfl⟩ := Option.map_eq_some_iff.mp read
    exact nat_bounded _ k digits
  · obtain ⟨k, digits, rfl⟩ := Option.map_eq_some_iff.mp read
    exact nat_bounded _ k digits

theorem nine_values (n : Nat) : digitValues? (List.replicate (n + 1) '9') = some (List.replicate (n + 1) 9) := by
  have nine : decimal? '9' = some 9 := rfl
  induction n with
  | zero => rfl
  | succ n ih =>
      rw [List.replicate_succ] at ih ⊢
      rw [List.replicate_succ] at ih ⊢
      rw [digitValues?]
      · rw [nine, ih]
        rfl
      · simp
      · simp

theorem of_digits_nines (n : Nat) : ofDigits (List.replicate n 9) + 1 = 10 ^ n := by
  induction n with
  | zero => rfl
  | succ n ih =>
      rw [List.replicate_succ', ofDigits, List.foldl_append]
      change 10 * ofDigits (List.replicate n 9) + 9 + 1 = 10 ^ (n + 1)
      rw [Nat.pow_succ, ← ih]
      omega

theorem nines_read (n : Nat) (few : n + 1 ≤ maxIntegerDigits) :
    int? (List.replicate (n + 1) '9') = some (10 ^ (n + 1) - 1) := by
  have kept : trim isPadding (List.replicate (n + 1) '9') = List.replicate (n + 1) '9' := by
    have none (k : Nat) : (List.replicate k '9').dropWhile isPadding = List.replicate k '9' := by
      cases k <;> rfl
    rw [trim, trimStart, trimEnd, none, List.reverse_replicate, none, List.reverse_replicate]
  have value : nat? (List.replicate (n + 1) '9') = some (ofDigits (List.replicate (n + 1) 9)) := by
    simp only [nat?, nine_values, Option.bind_eq_bind, Option.bind_some, List.length_replicate, if_pos few]
    rfl
  have nines := of_digits_nines (n + 1)
  have cast : (ofDigits (List.replicate (n + 1) 9) : Int) + 1 = 10 ^ (n + 1) := by exact_mod_cast nines
  unfold int?
  rw [kept]
  change Option.map Int.ofNat (nat? (List.replicate (n + 1) '9')) = _
  rw [value, ← cast]
  simp

end Text

-- The bound is not to be worked out, so it is only spelled in one way.
theorem below_power (n k : Nat) (below : n < 10 ^ k) : decide (Nat.pow 10 k ≤ n) = false :=
  decide_eq_false (Nat.not_le.mpr below)

theorem short_number (n : Int) (short : n.natAbs < 10 ^ Text.maxIntegerDigits) : (Scalar.int n).isEndless = false :=
  below_power n.natAbs Text.maxIntegerDigits short

theorem at_power (n k : Nat) (reached : 10 ^ k ≤ n) : decide (Nat.pow 10 k ≤ n) = true := decide_eq_true reached

theorem long_number (n : Int) (long : 10 ^ Text.maxIntegerDigits ≤ n.natAbs) : (Scalar.int n).isEndless = true :=
  at_power n.natAbs Text.maxIntegerDigits long

namespace ListMarker

theorem start_bounded (a : Attrs) : (start a).natAbs < 10 ^ Text.maxIntegerDigits := by
  unfold start
  cases read : (a.lookup "start").bind Text.int? with
  | none => exact Nat.one_lt_pow (by decide) (by decide)
  | some n =>
      obtain ⟨s, -, number⟩ := Option.bind_eq_some_iff.mp read
      exact Text.int_bounded s n number

theorem nines_start (n : Nat) (few : n + 1 ≤ Text.maxIntegerDigits) :
    start [("start", List.replicate (n + 1) '9')] = ((10 ^ (n + 1) : Nat) : Int) - 1 := by
  have read := Text.nines_read n few
  change ((some (List.replicate (n + 1) '9')).bind Text.int?).getD 1 = _
  rw [Option.bind_some, read, Option.getD_some, Int.natCast_pow]
  rfl

-- The number after the nines has one digit too many to be written.
theorem number_after_nines : (Scalar.int (start [("start", List.replicate Text.maxIntegerDigits '9')] +
    ((2 : Nat) : Int) - 1)).isEndless = true := by
  obtain ⟨n, digits⟩ : ∃ n, Text.maxIntegerDigits = n + 1 := ⟨_, rfl⟩
  refine long_number _ ?_
  rw [digits, nines_start n (Nat.le_of_eq digits.symm)]
  omega

-- A list with one item begins and ends with the number that its attribute says.
theorem single_writable {μ : Type} (a : Attrs) (ks : List (Node μ)) (one : countItems ks = 1) :
    isEndless a ks = false := by
  have last : start a + ((1 : Nat) : Int) - 1 = start a := by omega
  have short : (Scalar.int (start a)).isEndless = false := short_number _ (start_bounded a)
  unfold isEndless
  dsimp only
  rw [one, last, short, Bool.and_false]

theorem two_from_nines {μ : Type} (ks : List (Node μ)) (two : countItems ks = 2) :
    isEndless [("start", List.replicate Text.maxIntegerDigits '9')] ks = true := by
  unfold isEndless
  dsimp only
  rw [two, number_after_nines]
  rfl

end ListMarker

end Downmark
