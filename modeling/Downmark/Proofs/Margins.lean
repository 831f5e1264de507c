import Downmark.CommonMark.Block
import Downmark.Render.Join
import Downmark.Proofs.Flanking
import Downmark.Proofs.Stacked
/-!
The margins of a piece of output. No tab and no carriage return comes first in it, save for newlines, and
no tab is among the gaps at either end. Main statements: what rules put around their content keeps it so, and
joining two pieces does.
-/

set_option autoImplicit false

namespace Downmark

def Edge (s : Chars) : Prop := '\t' ∉ s.takeWhile Text.isGap

structure Clean (s : Chars) : Prop where
  first : Edge s
  last : Edge s.reverse

def Begins (s : Chars) : Prop := ∀ c ∈ (Text.trimStart Text.isNewline s).head?, c ≠ '\t' ∧ c ≠ '\r'

structure Neat (s : Chars) : Prop where
  clean : Clean s
  begins : Begins s

-- A character that is seen.
structure Ink (c : Char) : Prop where
  gap : Text.isGap c = false
  newline : c ≠ '\n'
  carriage : c ≠ '\r'

theorem edge_nil : Edge [] := by simp [Edge]

theorem edge_stop (c : Char) (s : Chars) (stop : Text.isGap c = false) : Edge (c :: s) := by
  simp [Edge, stop]

theorem edge_append (a b : Chars) (first : Edge a) (next : Edge b) : Edge (a ++ b) := by
  unfold Edge at *
  rw [List.takeWhile_append]
  split
  · rename_i whole
    have all : a.takeWhile Text.isGap = a := (List.takeWhile_prefix _).eq_of_length whole
    rw [all] at first
    simp [first, next]
  · exact first

theorem edge_before (a b : Chars) (whole : Edge (a ++ b)) : Edge a := by
  unfold Edge at *
  rw [List.takeWhile_append] at whole
  split at whole
  · rename_i same
    have all : a.takeWhile Text.isGap = a := (List.takeWhile_prefix _).eq_of_length same
    rw [all]
    exact fun member => whole (List.mem_append_left _ member)
  · exact whole

theorem edge_after (a b : Chars) (whole : Edge (a ++ b).reverse) : Edge b.reverse := by
  rw [List.reverse_append] at whole
  exact edge_before _ _ whole

theorem clean_nil : Clean [] := ⟨edge_nil, edge_nil⟩

theorem clean_append (a b : Chars) (first : Clean a) (next : Clean b) : Clean (a ++ b) := by
  refine ⟨edge_append a b first.first next.first, ?_⟩
  rw [List.reverse_append]
  exact edge_append _ _ next.last first.last

theorem clean_around (c d : Char) (s : Chars) (opening : Text.isGap c = false) (closing : Text.isGap d = false) :
    Clean (c :: (s ++ [d])) := by
  refine ⟨edge_stop c _ opening, ?_⟩
  rw [← List.cons_append, List.reverse_append]
  exact edge_stop d _ closing

theorem clean_gaps (s : Chars) (free : '\t' ∉ s) : Clean s := by
  have kept (u : Chars) (free : '\t' ∉ u) : Edge u := fun member => free ((List.takeWhile_sublist _).mem member)
  exact ⟨kept s free, kept _ (by simpa using free)⟩

theorem begins_nil : Begins [] := by simp [Begins, Text.trimStart]

theorem begins_ink (c : Char) (s : Chars) (ink : Ink c) : Begins (c :: s) := by
  have stop : Text.trimStart Text.isNewline (c :: s) = c :: s :=
    Text.drop_none _ _ (by simpa [Text.isNewline] using ink.newline)
  intro d member
  rw [stop] at member
  obtain rfl : c = d := by simpa using member
  have gap := ink.gap
  exact ⟨fun tab => by rw [tab] at gap; exact absurd gap (by decide), ink.carriage⟩

theorem begins_append (a b : Chars) (some : Text.trimStart Text.isNewline a ≠ []) :
    Begins (a ++ b) ↔ Begins a := by
  unfold Begins
  obtain ⟨c, rest, shape⟩ := List.exists_cons_of_ne_nil some
  rw [Text.trim_start_append, if_neg (by simpa using some), shape]
  rfl

theorem begins_free (s : Chars) (free : ∀ c ∈ s, c ≠ '\t' ∧ c ≠ '\r') : Begins s := by
  intro c member
  exact free c ((List.dropWhile_sublist _).mem (List.mem_of_mem_head? member))

theorem begins_both (a b : Chars) (first : Begins a) (next : Begins b) : Begins (a ++ b) := by
  by_cases empty : Text.trimStart Text.isNewline a = []
  · unfold Begins at next ⊢
    rwa [Text.trim_start_append, if_pos (by simpa using empty)]
  · exact (begins_append a b empty).mpr first

theorem begins_tail (s tail : Chars) (begins : Begins s) (newlines : ∀ c ∈ tail, c = '\n') : Begins (s ++ tail) := by
  refine begins_both s tail begins (begins_free tail fun c member => ?_)
  rw [newlines c member]
  exact ⟨by decide, by decide⟩

theorem begins_before (a b : Chars) (begins : Begins (a ++ b)) : Begins a := by
  by_cases empty : Text.trimStart Text.isNewline a = []
  · simp [Begins, empty]
  · exact (begins_append a b empty).mp begins

theorem begins_trim (s : Chars) (begins : Begins s) : Begins (Text.trim Text.isNewline s) := by
  obtain ⟨run, whole, all⟩ := Text.trim_end_run Text.isNewline s
  have shorter : Begins (Text.trimEnd Text.isNewline s) := begins_before _ run (whole ▸ begins)
  have stop : Text.trimStart Text.isNewline (Text.trim Text.isNewline s) = Text.trim Text.isNewline s := by
    rw [← Text.trim_both]
    exact Text.drop_none _ _ (Text.drop_stop _ _)
  unfold Begins at shorter ⊢
  rwa [stop, ← Text.trim_both]

theorem neat_nil : Neat [] := ⟨clean_nil, begins_nil⟩

theorem neat_apart (s : Chars) (begins : Begins s) : Neat (Block.apart s) := by
  have shape : Block.apart s = '\n' :: ('\n' :: s ++ ['\n'] ++ ['\n']) := by simp [Block.apart]
  refine ⟨?_, ?_⟩
  · rw [shape]
    exact clean_around '\n' '\n' _ rfl rfl
  · have opened : Begins ('\n' :: '\n' :: s) := begins
    exact begins_tail _ ['\n', '\n'] opened (by simp)

theorem spaced_free (s : Chars) (spaced : Spaced s) : ∀ c ∈ s, c ≠ '\t' ∧ c ≠ '\r' := by
  intro c member
  constructor
  · rintro rfl
    exact absurd (spaced _ member rfl) (by decide)
  · rintro rfl
    exact absurd (spaced _ member rfl) (by decide)

theorem neat_free (s : Chars) (free : ∀ c ∈ s, c ≠ '\t' ∧ c ≠ '\r') : Neat s :=
  ⟨clean_gaps s fun member => (free _ member).1 rfl, begins_free s free⟩

theorem neat_without (s : Chars) (tab : '\t' ∉ s) (carriage : '\r' ∉ s) : Neat s :=
  neat_free s fun _ member => ⟨ne_of_mem_of_not_mem member tab, ne_of_mem_of_not_mem member carriage⟩

theorem gaps_neat (s : Chars) (gaps : ∀ c ∈ s, Text.isGap c) (free : '\t' ∉ s) : Neat s := by
  refine neat_free s fun c member => ⟨by rintro rfl; exact free member, ?_⟩
  rintro rfl
  exact absurd (gaps _ member) (by decide)

-- Where no newlines meet, joining is appending.
theorem join_seam (x y : Chars) : ∃ k, join x y =
    Text.trimEnd Text.isNewline x ++ (List.replicate k '\n' ++ Text.trimStart Text.isNewline y) ∧
      (k = 0 → Text.trimEnd Text.isNewline x = x ∧ Text.trimStart Text.isNewline y = y) := by
  obtain ⟨i, j, k, left, right, joined, -, none⟩ := join_runs x y
  refine ⟨k, joined, fun apart => ?_⟩
  obtain ⟨rfl, rfl⟩ : i = 0 ∧ j = 0 := by
    have met := none.mp apart
    omega
  exact ⟨by simpa using left.symm, right.symm⟩

theorem replicate_edge (k : Nat) (s : Chars) (some : k ≠ 0) : Edge (List.replicate k '\n' ++ s) := by
  obtain ⟨j, rfl⟩ := Nat.exists_eq_succ_of_ne_zero some
  exact edge_stop '\n' _ rfl

theorem join_clean (x y : Chars) (before : Clean x) (after : Clean y) : Clean (join x y) := by
  obtain ⟨k, shape, touching⟩ := join_seam x y
  rw [shape]
  by_cases none : k = 0
  · obtain ⟨left, right⟩ := touching none
    rw [left, right, none]
    exact clean_append x y before after
  · obtain ⟨tail, left, -⟩ := Text.trim_end_run Text.isNewline x
    obtain ⟨run, right, -⟩ := Text.trim_start_run Text.isNewline y
    have first : Edge (Text.trimEnd Text.isNewline x) := edge_before _ tail (left ▸ before.first)
    have last : Edge (Text.trimStart Text.isNewline y).reverse := edge_after run _ (right ▸ after.last)
    refine ⟨edge_append _ _ first (replicate_edge k _ none), ?_⟩
    rw [List.reverse_append, List.reverse_append, List.reverse_replicate, List.append_assoc]
    exact edge_append _ _ last (replicate_edge k _ none)

-- Only where nothing but newlines stands before does the second piece come first.
theorem join_begins (x y : Chars) (before : Begins x) (after : Text.trimEnd Text.isNewline x = [] → Begins y) :
    Begins (join x y) := by
  obtain ⟨k, shape, -⟩ := join_seam x y
  rw [shape]
  by_cases empty : Text.trimEnd Text.isNewline x = []
  · have stop : Text.trimStart Text.isNewline (List.replicate k '\n' ++ Text.trimStart Text.isNewline y) =
        Text.trimStart Text.isNewline y := by
      rw [Text.trim_start_append, Text.trim_start_all _ (List.replicate k '\n') (by simp [Text.isNewline]),
        if_pos List.isEmpty_nil]
      exact Text.drop_none _ _ (Text.drop_stop _ _)
    have begins := after empty
    rw [empty, List.nil_append]
    unfold Begins at begins ⊢
    rwa [stop]
  · have some : Text.trimStart Text.isNewline (Text.trimEnd Text.isNewline x) ≠ [] := by
      intro gone
      obtain ⟨c, rest, kept⟩ := List.exists_cons_of_ne_nil empty
      have newlines := List.dropWhile_eq_nil_iff.mp gone
      have last := List.getLast?_eq_some_getLast empty
      have stop := Text.trim_end_stop Text.isNewline x
      rw [last, Option.any_some, newlines _ (List.getLast_mem empty)] at stop
      cases stop
    obtain ⟨tail, left, -⟩ := Text.trim_end_run Text.isNewline x
    exact (begins_append _ _ some).mpr (begins_before _ tail (left ▸ before))

theorem join_neat (x y : Chars) (before : Neat x) (clean : Clean y)
    (begins : Text.trimEnd Text.isNewline x = [] → Begins y) : Neat (join x y) :=
  ⟨join_clean x y before.clean clean, join_begins x y before.begins begins⟩

end Downmark
