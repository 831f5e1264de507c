import Mathlib.Data.List.Nodup
import Mathlib.Data.List.Perm.Subperm
import Downmark.Proofs.Lines
import Downmark.Proofs.Runs
import Downmark.CommonMark.Inline
/-!
Reading a code span: it begins with some backticks, and ends with the first run of just as many. One space is taken
from both ends of the code, unless all of it is spaces. Main statements: a span that is written around some code is read
back as that code with spaces for its line endings, whatever comes after it but a backtick; and the search for its
delimiter, one backtick more at a time, comes to an end.
-/

set_option autoImplicit false

namespace Downmark.Code

/-- What stands before the first run of `n` backticks, and what comes after that run. Right before the text, there are
`run` backticks. -/
def untilRun (n : Nat) : Nat → Chars → Option (Chars × Chars)
  | run, [] => if run = n then some ([], []) else none
  | run, c :: s =>
    if c = '`' then untilRun n (run + 1) s
    else if run = n then some ([], c :: s)
    else (untilRun n 0 s).map fun found => (List.replicate run '`' ++ c :: found.1, found.2)

/-- Code without a space at both of its ends, if it has them and something else. -/
def unpadded (s : Chars) : Chars :=
  if s.head? == some ' ' && s.getLast? == some ' ' && s.any (· != ' ') then s.tail.dropLast else s

/-- The code span that a text begins with: its code, and what comes after it. -/
def readSpan (s : Chars) : Option (Chars × Chars) :=
  let ticks := s.takeWhile (· == '`')
  if ticks = [] then none
  else (untilRun ticks.length 0 (s.dropWhile (· == '`'))).map fun found => (unpadded (flattenLines found.1), found.2)

theorem until_close (n run k : Nat) (rest : Chars) (whole : run + k = n) (next : rest.head? ≠ some '`') :
    untilRun n run (List.replicate k '`' ++ rest) = some ([], rest) := by
  induction k generalizing run with
  | zero =>
      obtain rfl : run = n := whole
      cases rest with
      | nil => simp [untilRun]
      | cons c rest =>
          have other : c ≠ '`' := by simpa using next
          simp [untilRun, other]
  | succ k ih =>
      rw [List.replicate_succ, List.cons_append, untilRun, if_pos rfl]
      exact ih (run + 1) (by omega)

-- The run that is going on ends within the body, since the body does not end in a backtick.
theorem until_run (n run : Nat) (positive : n ≠ 0) (body rest : Chars) (next : rest.head? ≠ some '`')
    (last : body.getLast? ≠ some '`') (fresh : body = [] → run = 0) (first : run + (split '`' body).1 ≠ n)
    (others : n ∉ (split '`' body).2) :
    untilRun n run (body ++ (List.replicate n '`' ++ rest)) = some (List.replicate run '`' ++ body, rest) := by
  induction body generalizing run with
  | nil =>
      obtain rfl := fresh rfl
      simpa using until_close n 0 n rest (by omega) next
  | cons c body ih =>
      by_cases tick : c = '`'
      · subst tick
        rw [split_same] at first others
        have more : body ≠ [] := by
          rintro rfl
          exact last rfl
        have ends : body.getLast? ≠ some '`' := by
          rwa [List.getLast?_cons_of_ne_nil more] at last
        rw [List.cons_append, untilRun, if_pos rfl, ih (run + 1) ends (fun none => absurd none more) (by omega) others]
        simp [List.replicate_succ']
      · rw [split_other _ c body tick, runs_split] at others
        have ends : body.getLast? ≠ some '`' := by
          cases body with
          | nil => simp
          | cons d body => rwa [List.getLast?_cons_cons] at last
        have apart : 0 + (split '`' body).1 ≠ n ∧ n ∉ (split '`' body).2 := by
          split at others
          · exact ⟨by omega, others⟩
          · rw [List.mem_cons, not_or] at others
            exact ⟨by omega, others.2⟩
        have ended : run ≠ n := by
          rw [split_other _ c body tick] at first
          omega
        rw [List.cons_append, untilRun, if_neg tick, if_neg ended, ih 0 ends (fun _ => rfl) apart.1 apart.2]
        simp

/-- The search for a delimiter: as long as some run is just as long, it is made longer by one. -/
inductive Lengthened (taken : List Nat) : Nat → Nat → Prop where
  | free (n : Nat) (fresh : n ∉ taken) : Lengthened taken n n
  | longer (n last : Nat) (used : n ∈ taken) (rest : Lengthened taken (n + 1) last) : Lengthened taken n last

theorem lengthened_through (taken : List Nat) (n k : Nat) (used : ∀ j < k, n + j ∈ taken) (fresh : n + k ∉ taken) :
    Lengthened taken n (n + k) := by
  induction k generalizing n with
  | zero => exact .free n fresh
  | succ k ih =>
      have shift (j : Nat) : n + 1 + j = n + (j + 1) := by omega
      have rest := ih (n + 1) (fun j less => shift j ▸ used (j + 1) (Nat.succ_lt_succ less)) (shift k ▸ fresh)
      exact .longer n _ (used 0 (Nat.zero_lt_succ k)) (shift k ▸ rest)

theorem span_first (s : Chars) :
    ∃ k, spanLength s = 1 + k ∧ (∀ j < k, 1 + j ∈ runs '`' s) ∧ 1 + k ∉ runs '`' s := by
  unfold spanLength
  dsimp only
  generalize runs '`' s = taken
  cases found : ((List.range (taken.length + 1)).map (· + 1)).find? fun n => !taken.contains n with
  | some n =>
      rw [List.find?_map, Option.map_eq_some_iff] at found
      obtain ⟨k, first, rfl⟩ := found
      obtain ⟨fresh, -, used⟩ := List.find?_range_eq_some.mp first
      refine ⟨k, Nat.add_comm k 1, fun j less => ?_, ?_⟩
      · simpa [Nat.add_comm] using used j less
      · simpa [Nat.add_comm] using fresh
  | none =>
      -- More lengths are tried than there are runs.
      have covered : (List.range (taken.length + 1)).map (· + 1) ⊆ taken := fun n member => by
        simpa using List.find?_eq_none.mp found n member
      have distinct : ((List.range (taken.length + 1)).map (· + 1)).Nodup :=
        List.nodup_range.map fun a b same => Nat.succ.inj same
      have few := (List.subperm_of_subset distinct covered).length_le
      rw [List.length_map, List.length_range] at few
      omega

theorem span_fresh (s : Chars) : spanLength s ≠ 0 ∧ spanLength s ∉ runs '`' s := by
  obtain ⟨k, length, -, fresh⟩ := span_first s
  rw [length]
  exact ⟨by omega, fresh⟩

theorem flat_free (s : Chars) : ∀ c ∈ flattenLines s, c ≠ '\n' ∧ c ≠ '\r' := by
  fun_induction flattenLines s with
  | case1 s ih => exact List.forall_mem_cons.mpr ⟨by decide, ih⟩
  | case2 c s _ ih =>
      refine List.forall_mem_cons.mpr ⟨?_, ih⟩
      split
      · decide
      · simp_all
  | case3 => simp

theorem flatten_free (s : Chars) (free : ∀ c ∈ s, c ≠ '\n' ∧ c ≠ '\r') : flattenLines s = s := by
  fun_induction flattenLines s with
  | case1 s ih => exact absurd rfl (free '\r' List.mem_cons_self).2
  | case2 c s _ ih =>
      rw [List.forall_mem_cons] at free
      rw [ih free.2]
      simp [free.1]
  | case3 => rfl

theorem flat_filled (s : Chars) (filled : s ≠ []) : flattenLines s ≠ [] := by
  fun_induction flattenLines s with
  | case1 | case2 => exact List.cons_ne_nil _ _
  | case3 => exact absurd rfl filled

/-- The spaces that keep the code off the backticks around it. -/
def padding (s : Chars) : Chars := if needsPadding s then [' '] else []

theorem spaced_last (s : Chars) : (' ' :: (s ++ [' '])).getLast? = some ' ' := by
  rw [← List.cons_append, List.getLast?_concat]

theorem padded_solid (s : Chars) (needs : needsPadding s = true) : ∃ c ∈ s, c ≠ ' ' := by
  simp only [needsPadding, Bool.or_eq_true, Bool.and_eq_true, beq_iff_eq, List.any_eq_true, bne_iff_ne] at needs
  rcases needs with (first | last) | ⟨-, solid⟩
  · exact ⟨'`', List.mem_of_head? first, by decide⟩
  · exact ⟨'`', List.mem_of_getLast? last, by decide⟩
  · exact solid

theorem unpadded_padded (s : Chars) : unpadded (padding s ++ s ++ padding s) = s := by
  unfold unpadded padding
  cases needs : needsPadding s with
  | true =>
      obtain ⟨c, member, other⟩ := padded_solid s needs
      have inner : (' ' :: (s ++ [' '])).any (· != ' ') = true :=
        List.any_eq_true.mpr ⟨c, by simp [member], by simpa using other⟩
      simp only [if_true, List.cons_append, List.nil_append, spaced_last, inner]
      simp
  | false =>
      simp only [Bool.false_eq_true, if_false, List.nil_append, List.append_nil]
      rw [if_neg (Bool.eq_false_iff.mp (Bool.or_eq_false_iff.mp needs).2)]

theorem padded_ends (s : Chars) :
    (padding s ++ s ++ padding s).head? ≠ some '`' ∧ (padding s ++ s ++ padding s).getLast? ≠ some '`' := by
  unfold padding
  cases needs : needsPadding s with
  | true =>
      simp only [if_true, List.cons_append, List.nil_append, spaced_last, List.head?_cons]
      decide
  | false =>
      simp only [needsPadding, Bool.or_eq_false_iff, beq_eq_false_iff_ne] at needs
      simpa using needs.1

theorem split_padded (s : Chars) (filled : s ≠ []) : split '`' (padding s ++ s ++ padding s) = (0, runs '`' s) := by
  have begins := (padded_ends s).1
  unfold padding at begins ⊢
  cases needs : needsPadding s with
  | true =>
      simp only [if_true, List.cons_append, List.nil_append]
      rw [split_other _ ' ' _ (by decide), runs_split, split_end _ _ _ (by decide), ← runs_split]
  | false =>
      obtain ⟨c, s, rfl⟩ := List.exists_cons_of_ne_nil filled
      rw [needs] at begins
      simp only [Bool.false_eq_true, if_false, List.nil_append, List.append_nil] at begins ⊢
      have other : c ≠ '`' := by simpa using begins
      rw [runs_split _ (c :: s), split_other _ c s other, if_pos rfl]

theorem padded_filled (s : Chars) (filled : s ≠ []) :
    ∃ c inner, padding s ++ s ++ padding s = c :: inner ∧ (c == '`') = false := by
  have body : padding s ++ s ++ padding s ≠ [] := by simp [filled]
  have begins := (padded_ends s).1
  obtain ⟨c, inner, whole⟩ := List.exists_cons_of_ne_nil body
  exact ⟨c, inner, whole, by simpa [whole] using begins⟩

-- The delimiters, and the padded code between them.
theorem span_shape (code rest : Chars) (filled : code ≠ []) :
    span code ++ rest = List.replicate (spanLength (flattenLines code)) '`' ++
      (padding (flattenLines code) ++ flattenLines code ++ padding (flattenLines code) ++
        (List.replicate (spanLength (flattenLines code)) '`' ++ rest)) := by
  simp [span, padding, filled]

theorem span_ticks (code rest : Chars) (filled : code ≠ []) :
    (span code ++ rest).takeWhile (· == '`') = List.replicate (spanLength (flattenLines code)) '`' := by
  obtain ⟨c, inner, whole, other⟩ := padded_filled _ (flat_filled code filled)
  rw [span_shape code rest filled, whole, List.takeWhile_append_of_pos (by simp), List.cons_append,
    List.takeWhile_cons_of_neg (by simp [other]), List.append_nil]

theorem read_span (code rest : Chars) (filled : code ≠ []) (next : rest.head? ≠ some '`') :
    readSpan (span code ++ rest) = some (flattenLines code, rest) := by
  have ticks := span_ticks code rest filled
  have flat := flat_free code
  have some := flat_filled code filled
  have shape := span_shape code rest filled
  generalize flattenLines code = s at ticks flat some shape
  obtain ⟨positive, fresh⟩ := span_fresh s
  have ends := (padded_ends s).2
  have apart := split_padded s some
  have free : flattenLines (padding s ++ s ++ padding s) = padding s ++ s ++ padding s := by
    refine flatten_free _ fun c member => ?_
    have space : ∀ c ∈ padding s, c ≠ '\n' ∧ c ≠ '\r' := by
      unfold padding
      split <;> simp
    rcases List.mem_append.mp member with front | back
    · exact (List.mem_append.mp front).elim (space c) (flat c)
    · exact space c back
  have unpadding := unpadded_padded s
  obtain ⟨c, inner, whole, other⟩ := padded_filled s some
  rw [whole] at shape ends apart free unpadding
  have after : (span code ++ rest).dropWhile (· == '`') =
      c :: inner ++ (List.replicate (spanLength s) '`' ++ rest) := by
    rw [shape, List.dropWhile_append_of_pos (by simp), List.cons_append, List.dropWhile_cons_of_neg (by simp [other])]
  have found := until_run (spanLength s) 0 positive (c :: inner) rest next ends nofun
    (by rw [apart]; omega) (by rw [apart]; exact fresh)
  unfold readSpan
  dsimp only
  rw [ticks, after, if_neg (by simpa using positive), List.length_replicate, found]
  simp [free, unpadding]

theorem inline_code_read (code : Chars) (filled : code ≠ []) (site : Site) (o : Options) (s : State) :
    ∃ written, Inline.code code site o s = .ok written s ∧ readSpan written = some (flattenLines code, []) ∧
      Lengthened (runs '`' (flattenLines code)) 1 (written.takeWhile (· == '`')).length := by
  have read := read_span code [] filled nofun
  have ticks := span_ticks code [] filled
  rw [List.append_nil] at read ticks
  obtain ⟨k, length, used, fresh⟩ := span_first (flattenLines code)
  refine ⟨span code, rfl, read, ?_⟩
  rw [ticks, List.length_replicate, length]
  exact lengthened_through _ 1 k used fresh

-- A text that begins with a backtick, ends in one before a line ending, and has runs of one and of two.
theorem ticked_code_read : "`a``\r\n".toList ≠ [] ∧
    ∃ written, Inline.code "`a``\r\n".toList ⟨.text {} [], []⟩ {} {} = .ok written {} ∧
      readSpan written = some ("`a`` ".toList, []) ∧
      Lengthened (runs '`' "`a`` ".toList) 1 (written.takeWhile (· == '`')).length := by
  have filled : "`a``\r\n".toList ≠ [] := by decide
  have same : flattenLines "`a``\r\n".toList = "`a`` ".toList := by decide +kernel
  have read := inline_code_read "`a``\r\n".toList filled ⟨.text {} [], []⟩ {} {}
  rw [same] at read
  exact ⟨filled, read⟩

end Downmark.Code
