import Mathlib.Data.List.Chain
import Mathlib.Data.List.Infix
import Downmark.CommonMark.Link
import Downmark.Proofs.InkedEnds
import Downmark.Proofs.OutlineText
/-!
Texts with a blank line in them: two newlines with nothing but gaps in between. Main statements: without its gaps such
a text has two newlines next to each other; joining never closes a blank line, and where none comes about it is
appending; and a cleaned attribute has none.
-/

set_option autoImplicit false

namespace Downmark

/-- Somewhere in a text there is a newline, then nothing but gaps, then another newline. -/
def Broken (s : Chars) : Prop :=
  ∃ before gap after, s = before ++ '\n' :: (gap ++ '\n' :: after) ∧ ∀ c ∈ gap, Text.isGap c

-- An item does not come twice in a row.
def Single {α : Type} (x : α) (l : List α) : Prop := l.IsChain fun a b => ¬ (a = x ∧ b = x)

section

variable {α : Type} (x : α)

theorem single_iff (l : List α) : Single x l ↔ ¬ [x, x] <:+: l := by
  rw [Single, List.isChain_iff_forall_rel_of_append_cons_cons]
  constructor
  · rintro apart ⟨before, after, rfl⟩
    exact apart (show before ++ [x, x] ++ after = before ++ x :: x :: after by simp) ⟨rfl, rfl⟩
  · rintro none a b before after rfl ⟨rfl, rfl⟩
    exact none ⟨before, after, by simp⟩

theorem single_append (a b : List α) :
    Single x (a ++ b) ↔ Single x a ∧ Single x b ∧ ¬ (a.getLast? = some x ∧ b.head? = some x) := by
  rw [Single, List.isChain_append]
  refine and_congr_right fun _ => and_congr_right fun _ => ⟨fun seam => ?_, fun seam => ?_⟩
  · rintro ⟨last, first⟩
    exact seam x last x first ⟨rfl, rfl⟩
  · rintro c last d first ⟨rfl, rfl⟩
    exact seam ⟨last, first⟩

theorem single_free (l : List α) (free : x ∉ l) : Single x l :=
  (single_iff x l).mpr fun twice => free (twice.subset List.mem_cons_self)

theorem single_cons (a : α) (l : List α) : Single x (a :: l) ↔ Single x l ∧ ¬ (a = x ∧ l.head? = some x) := by
  have one : Single x [a] := List.isChain_singleton a
  rw [← List.singleton_append, single_append, and_iff_right one, List.getLast?_singleton, Option.some_inj]

theorem single_around (a b c : List α) (first : Single x a) (last : Single x c) (ends : a.getLast? ≠ some x)
    (starts : c.head? ≠ some x) : Single x (a ++ (b ++ c)) ↔ Single x b := by
  rw [single_append, single_append]
  constructor
  · exact fun whole => whole.2.1.1
  · exact fun middle => ⟨first, ⟨middle, last, fun seam => starts seam.2⟩, fun seam => ends seam.1⟩

end

theorem broken_iff (s : Chars) : Broken s ↔ ['\n', '\n'] <:+: gapless s := by
  constructor
  · rintro ⟨before, gap, after, rfl, gaps⟩
    refine ⟨gapless before, gapless after, ?_⟩
    have none : gapless gap = [] := (gaps_iff gap).mpr gaps
    have newline (t : Chars) : gapless ('\n' :: t) = '\n' :: gapless t := rfl
    rw [gapless_append, newline, gapless_append, newline, none, List.append_assoc]
    rfl
  · rintro ⟨p, q, whole⟩
    rw [List.append_assoc] at whole
    obtain ⟨before, rest, rfl, -, later⟩ := List.filter_eq_append_iff.mp whole.symm
    obtain ⟨gap₁, rest, rfl, gaps₁, -, later⟩ := List.filter_eq_cons_iff.mp later
    obtain ⟨gap₂, after, rfl, gaps₂, -, -⟩ := List.filter_eq_cons_iff.mp later
    exact ⟨before ++ gap₁, gap₂, after, by simp, by simpa using gaps₂⟩

theorem whole_iff (s : Chars) : ¬ Broken s ↔ Single '\n' (gapless s) := by rw [broken_iff, single_iff]

instance : DecidablePred Broken := fun s => decidable_of_iff _ (broken_iff s).symm

theorem broken_same (s t : Chars) (same : gapless s = gapless t) : Broken s ↔ Broken t := by
  rw [broken_iff, broken_iff, same]

theorem broken_part (s t : Chars) (part : s <:+: t) (broken : Broken s) : Broken t := by
  rw [broken_iff] at broken ⊢
  exact broken.trans (part.filter _)

theorem whole_free (s : Chars) (free : '\n' ∉ s) : ¬ Broken s :=
  (whole_iff s).mpr (single_free '\n' _ fun member => free (List.mem_filter.mp member).1)

theorem broken_reverse (s : Chars) : Broken s.reverse ↔ Broken s := by
  rw [broken_iff, broken_iff, gapless_reverse]
  have twice : ['\n', '\n'].reverse <:+: (gapless s).reverse ↔ ['\n', '\n'] <:+: gapless s := List.reverse_infix
  exact twice

theorem apart_broken (s : Chars) : Broken (Block.apart s) := ⟨[], [], s ++ ['\n', '\n'], rfl, by simp⟩

/-! Joining -/

-- Of two newlines next to each other, one or two are left, and so are two newlines that gaps lie between.
theorem broken_join (a b : Chars) (broken : Broken a) : Broken (join a b) := by
  obtain ⟨left, i, rfl, last⟩ := last_run a
  obtain ⟨j, right, rfl, first⟩ := first_run b
  rw [join_breaks left right last first]
  rcases Nat.lt_or_ge 1 i with twice | once
  · have both : min 2 (max i j) = 2 := by omega
    rw [both]
    exact ⟨left, [], right, by simp, by simp⟩
  · have kept : List.replicate i '\n' <+: List.replicate (min 2 (max i j)) '\n' := by
      obtain ⟨more, enough⟩ : ∃ more, min 2 (max i j) = i + more := ⟨min 2 (max i j) - i, by omega⟩
      rw [enough, List.replicate_add]
      exact List.prefix_append _ _
    obtain ⟨more, same⟩ := kept
    refine broken_part _ _ ⟨[], more ++ right, ?_⟩ broken
    rw [← same]
    simp

theorem broken_join_behind (a b : Chars) (broken : Broken b) : Broken (join a b) := by
  rw [← broken_reverse, join_reverse]
  exact broken_join _ _ ((broken_reverse b).mpr broken)

theorem newline_last (s : Chars) (ended : s.getLast?.any Text.isNewline = true) : ∃ front, s = front ++ ['\n'] := by
  cases last : s.getLast? with
  | none => simp [last] at ended
  | some c =>
      obtain rfl : c = '\n' := by simpa [last, Text.isNewline] using ended
      exact List.getLast?_eq_some_iff.mp last

-- Where there is no blank line, and a newline comes first only behind a gap, no two newlines meet.
theorem join_whole (a b : Chars) (first : ¬ Broken a) (next : ¬ Broken b)
    (opens : b.head? = some '\n' → Render.endsInGap a = true) : join a b = a ++ b := by
  have twice (s : Chars) (whole : ¬ Broken (s ++ ['\n'])) : s.getLast?.any Text.isNewline = false := by
    by_contra ended
    obtain ⟨front, rfl⟩ := newline_last s (by simpa using ended)
    exact whole ⟨front, [], [], by simp, by simp⟩
  cases ended : a.getLast?.any Text.isNewline with
  | true =>
      obtain ⟨front, rfl⟩ := newline_last a ended
      have stop : b.head?.any Text.isNewline = false := by
        by_contra newline
        have start : b.head? = some '\n' := by
          cases b with
          | nil => exact absurd rfl newline
          | cons c b => simpa [Text.isNewline] using newline
        simpa [Render.endsInGap, Text.isGap] using opens start
      rw [join_after_break front b (twice front first) stop, List.append_assoc]
      rfl
  | false =>
      cases b with
      | nil => exact join_plain a [] ended rfl
      | cons c b =>
          by_cases newline : c = '\n'
          · subst newline
            refine join_before_break a b ended ?_
            cases b with
            | nil => rfl
            | cons d b =>
                have other : d ≠ '\n' := by
                  rintro rfl
                  exact next ⟨[], [], b, rfl, by simp⟩
                simpa [Text.isNewline] using other
          · exact join_plain a _ ended (by simpa [Text.isNewline] using newline)

/-! Cleaned and escaped attributes -/

theorem gapless_cons (c : Char) (s : Chars) :
    gapless (c :: s) = if Text.isGap c then gapless s else c :: gapless s := by
  cases gap : Text.isGap c <;> simp [gapless, gap]

-- A backslash only comes before a character that is no white space, so newlines meet where they met before.
theorem broken_slashed (f : Char → Chars)
    (slashed : ∀ c, f c = [c] ∨ (f c = ['\\', c] ∧ Text.isBlank c = false)) (s : Chars) :
    Broken (s.flatMap f) ↔ Broken s := by
  have both : (Single '\n' (gapless (s.flatMap f)) ↔ Single '\n' (gapless s)) ∧
      ((gapless (s.flatMap f)).head? = some '\n' ↔ (gapless s).head? = some '\n') := by
    induction s with
    | nil => exact ⟨.rfl, .rfl⟩
    | cons c s ih =>
        rw [List.flatMap_cons, gapless_append]
        rcases slashed c with plain | ⟨escaped, solid⟩
        · have one : gapless [c] ++ gapless (s.flatMap f) = gapless (c :: s.flatMap f) := (gapless_append [c] _).symm
          rw [plain, one, gapless_cons, gapless_cons]
          split
          · exact ih
          · rw [single_cons, single_cons, ih.1, ih.2]
            exact ⟨.rfl, .rfl⟩
        · have other : c ≠ '\n' := by
            rintro rfl
            cases solid
          have two : gapless ['\\', c] = ['\\', c] := by
            rw [gapless_cons, gapless_cons, solid_not_gap c solid]
            rfl
          rw [escaped, two, gapless_cons, solid_not_gap c solid, if_neg Bool.false_ne_true]
          simp [single_cons, other, ih.1]
  have same := both.1
  rw [← whole_iff, ← whole_iff] at same
  exact not_iff_not.mp same

theorem broken_backslash (special s : Chars) (solid : special.any Text.isBlank = false) :
    Broken (Text.backslash special s) ↔ Broken s := by
  refine broken_slashed _ (fun c => ?_) s
  split
  · rename_i listed
    have member : c ∈ special := by simpa using listed
    exact .inr ⟨rfl, by simpa using List.any_eq_false.mp solid c member⟩
  · exact .inl rfl

theorem clean_whole (s : Chars) : ¬ Broken (Link.clean s) := by
  have both (inGap : Bool) : Single '\n' (gapless (Link.cleanFrom inGap s)) ∧
      (inGap = true → (gapless (Link.cleanFrom inGap s)).head? ≠ some '\n') := by
    induction s generalizing inGap with
    | nil => exact ⟨single_free '\n' _ (by simp [Link.cleanFrom, gapless]), by simp [Link.cleanFrom, gapless]⟩
    | cons c s ih =>
        rw [Link.cleanFrom]
        split
        · exact ⟨(ih true).1, fun _ => (ih true).2 rfl⟩
        · rename_i kept
          split
          · rename_i newline
            obtain rfl : c = '\n' := by simpa using newline
            have seen : inGap = false := by simpa [show Text.isBlank '\n' = true from rfl] using kept
            refine ⟨?_, fun gap => by simp [seen] at gap⟩
            exact (single_cons _ _ _).mpr ⟨(ih true).1, fun seam => (ih true).2 rfl seam.2⟩
          · rename_i other
            have other : c ≠ '\n' := by simpa using other
            rw [gapless_cons]
            cases inGap with
            | true =>
                have solid : Text.isBlank c = false := by simpa using kept
                rw [solid_not_gap c solid, if_neg Bool.false_ne_true]
                exact ⟨(single_cons _ _ _).mpr ⟨(ih false).1, fun seam => other seam.1⟩, fun _ => by simpa using other⟩
            | false =>
                refine ⟨?_, by simp⟩
                split
                · exact (ih false).1
                · exact (single_cons _ _ _).mpr ⟨(ih false).1, fun seam => other seam.1⟩
  exact (whole_iff _).mpr (both false).1

end Downmark
