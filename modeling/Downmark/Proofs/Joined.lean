import Downmark.Proofs.Stacked
/-!
The laws of joining. Only the newlines where two pieces meet are touched: the longer one of the two runs stands, and
never more than two newlines of it. Main statement: joining is associative, so a sequence of pieces comes to the same
output however it is grouped.
-/

set_option autoImplicit false

namespace Downmark

section

variable (x y : Chars) (last : x.getLast?.any Text.isNewline = false) (first : y.head?.any Text.isNewline = false)

include last first

theorem join_breaks (j k : Nat) : join (x ++ List.replicate j '\n') (List.replicate k '\n' ++ y) =
    x ++ List.replicate (min 2 (max j k)) '\n' ++ y := by
  have newlines (n : Nat) : ∀ c ∈ List.replicate n '\n', Text.isNewline c := by
    intro c member
    rw [(List.mem_replicate.mp member).2]
    rfl
  have left : Text.trimEnd Text.isNewline (x ++ List.replicate j '\n') = x := by
    rw [Text.trim_end_append, Text.trim_end_all _ _ (newlines j), if_pos List.isEmpty_nil, Text.trim_end_none _ x last]
  have right : Text.trimStart Text.isNewline (List.replicate k '\n' ++ y) = y := by
    rw [Text.trim_start_append, Text.trim_start_all _ _ (newlines k), if_pos List.isEmpty_nil]
    exact Text.drop_none _ y first
  simp [join, left, right]

theorem join_plain : join x y = x ++ y := by simpa using join_breaks x y last first 0 0

theorem join_after_break : join (x ++ ['\n']) y = x ++ '\n' :: y := by simpa using join_breaks x y last first 1 0

theorem join_before_break : join x ('\n' :: y) = x ++ '\n' :: y := by simpa using join_breaks x y last first 0 1

end

theorem last_run (s : Chars) : ∃ x i, s = x ++ List.replicate i '\n' ∧ x.getLast?.any Text.isNewline = false := by
  obtain ⟨i, whole⟩ := newlines_last s
  exact ⟨_, i, whole, Text.trim_end_stop Text.isNewline s⟩

theorem first_run (s : Chars) : ∃ j y, s = List.replicate j '\n' ++ y ∧ y.head?.any Text.isNewline = false := by
  obtain ⟨j, whole⟩ := newlines_first s
  exact ⟨j, _, whole, Text.drop_stop Text.isNewline s⟩

theorem core_runs (s : Chars) : ∃ i j, s = List.replicate i '\n' ++ (core s ++ List.replicate j '\n') := by
  obtain ⟨i, front⟩ := newlines_first s
  obtain ⟨j, back⟩ := newlines_last (Text.trimStart Text.isNewline s)
  exact ⟨i, j, front.trans (congrArg (List.replicate i '\n' ++ ·) back)⟩

-- The limit of two newlines at one seam changes nothing at the next one, where it is asked for again.
theorem join_assoc_newlines (a c : Chars) (j : Nat) :
    join (join a (List.replicate j '\n')) c = join a (join (List.replicate j '\n') c) := by
  obtain ⟨x, i, rfl, last⟩ := last_run a
  obtain ⟨k, y, rfl, first⟩ := first_run c
  have left : join (x ++ List.replicate i '\n') (List.replicate j '\n') =
      x ++ List.replicate (min 2 (max i j)) '\n' := by
    simpa using join_breaks x [] last rfl i j
  have right : join (List.replicate j '\n') (List.replicate k '\n' ++ y) =
      List.replicate (min 2 (max j k)) '\n' ++ y := by
    simpa using join_breaks [] y rfl first j k
  have limits : min 2 (max (min 2 (max i j)) k) = min 2 (max i (min 2 (max j k))) := by omega
  rw [left, right, join_breaks x y last first, join_breaks x y last first, limits]

-- A piece that has anything but newlines keeps the seams before and after it apart.
theorem join_assoc_seen (a b c : Chars) (seen : core b ≠ []) : join (join a b) c = join a (join b c) := by
  obtain ⟨x, i, rfl, last⟩ := last_run a
  obtain ⟨k, y, rfl, first⟩ := first_run c
  obtain ⟨j, l, whole⟩ := core_runs b
  obtain ⟨starts, ends⟩ := core_stops b
  generalize core b = u at seen whole starts ends
  subst whole
  have behind (rest : Chars) : (u ++ rest).head?.any Text.isNewline = false := by
    rwa [List.head?_append, Option.or_of_isSome (by simpa using seen)]
  have before (rest : Chars) : (rest ++ u).getLast?.any Text.isNewline = false := by
    rwa [List.getLast?_append, Option.or_of_isSome (by simpa using seen)]
  have left : join (x ++ List.replicate i '\n') (List.replicate j '\n' ++ (u ++ List.replicate l '\n')) =
      x ++ List.replicate (min 2 (max i j)) '\n' ++ u ++ List.replicate l '\n' := by
    rw [join_breaks x _ last (behind _), List.append_assoc _ u]
  have right : join (List.replicate j '\n' ++ (u ++ List.replicate l '\n')) (List.replicate k '\n' ++ y) =
      List.replicate j '\n' ++ (u ++ (List.replicate (min 2 (max l k)) '\n' ++ y)) := by
    rw [← List.append_assoc, join_breaks _ y (before _) first, List.append_assoc, List.append_assoc]
  rw [left, right, join_breaks _ y (before _) first, join_breaks x _ last (behind _)]
  simp only [List.append_assoc]

theorem join_assoc (a b c : Chars) : join (join a b) c = join a (join b c) := by
  by_cases empty : core b = []
  · obtain ⟨i, j, whole⟩ := core_runs b
    rw [empty, List.nil_append, List.replicate_append_replicate] at whole
    rw [whole]
    exact join_assoc_newlines a c (i + j)
  · exact join_assoc_seen a b c empty

instance : Std.Associative join := ⟨join_assoc⟩

theorem joined_in_any_grouping (a b c : Chars) :
    join (join a b) c = join a (join b c) ∧
    (∃ x i j y, a = x ++ List.replicate i '\n' ∧ x.getLast? ≠ some '\n' ∧
      b = List.replicate j '\n' ++ y ∧ y.head? ≠ some '\n' ∧
      join a b = x ++ List.replicate (min 2 (max i j)) '\n' ++ y) ∧
    ∀ before later, join (before.foldl join a) (later.foldl join b) = (before ++ b :: later).foldl join a := by
  refine ⟨join_assoc a b c, ?seam, fun before later => ?cut⟩
  case seam =>
    obtain ⟨x, i, rfl, last⟩ := last_run a
    obtain ⟨j, y, rfl, first⟩ := first_run b
    refine ⟨x, i, j, y, rfl, ?_, rfl, ?_, join_breaks x y last first i j⟩
    · intro newline
      simp [newline, Text.isNewline] at last
    · intro newline
      simp [newline, Text.isNewline] at first
  case cut =>
    rw [List.foldl_append, List.foldl_cons, List.foldl_assoc]

example : join (join "a\n\n\n".toList "\n".toList) "\nb\n\n\n".toList = "a\n\nb\n\n\n".toList := by decide

end Downmark
