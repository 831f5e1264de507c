import Downmark.Proofs.Squeezed
/-!
Texts that are alike: they differ in nothing but the lengths of their runs of white space. Pieces may be
exchanged for pieces that are alike, and a gap next to another gap may be left out.
-/

set_option autoImplicit false

namespace Downmark.Whitespace

def Alike (a b : Chars) : Prop := squeeze a = squeeze b

theorem alike_refl (a : Chars) : Alike a a := rfl

theorem alike_trans (a b c : Chars) (first : Alike a b) (later : Alike b c) : Alike a c :=
  Eq.trans first later

theorem alike_symm (a b : Chars) (same : Alike a b) : Alike b a := Eq.symm same

theorem in_run_after_squeeze (s : Chars) :
    inRunAfter false s = (match (squeeze s).getLast? with | some c => c == ' ' | none => false) := by
  cases last : (squeeze s).getLast? with
  | none => exact squeeze_from_empty false s (List.getLast?_eq_none_iff.mp last)
  | some c => exact squeeze_from_last false s c last

theorem alike_in_run (a b : Chars) (same : Alike a b) : inRunAfter false a = inRunAfter false b := by
  rw [in_run_after_squeeze, in_run_after_squeeze, same]

theorem alike_from (inRun : Bool) (a b : Chars) (same : Alike a b) : squeezeFrom inRun a = squeezeFrom inRun b := by
  cases inRun with
  | false => exact same
  | true =>
      have plain : squeezeFrom false a = squeezeFrom false b := same
      rw [← squeeze_from_drop a, ← squeeze_from_drop b, plain]

theorem alike_append (a b c d : Chars) (first : Alike a b) (later : Alike c d) : Alike (a ++ c) (b ++ d) := by
  have run := alike_in_run a b first
  unfold Alike squeeze at *
  rw [squeeze_from_append, squeeze_from_append, first, run, alike_from _ c d later]

theorem gap_collapsible (c : Char) (gap : Text.isGap c) : isCollapsible c := by
  rcases (by simpa [Text.isGap] using gap : c = ' ' ∨ c = '\t') with rfl | rfl <;> rfl

-- After a gap, more gaps change nothing.
theorem squeeze_gaps (gaps t : Chars) (all : ∀ c ∈ gaps, Text.isGap c) :
    squeezeFrom true (gaps ++ t) = squeezeFrom true t := by
  induction gaps with
  | nil => rfl
  | cons c gaps ih =>
      rw [List.cons_append, squeeze_from_blank true c _ (gap_collapsible c (all c (List.mem_cons_self))), if_pos rfl]
      exact ih (fun d member => all d (List.mem_cons_of_mem c member))

theorem alike_gap_behind (a gaps t : Chars) (all : ∀ c ∈ gaps, Text.isGap c)
    (ends : a.getLast?.any Text.isGap) : Alike (a ++ gaps ++ t) (a ++ t) := by
  have inside : inRunAfter false a = true := by
    cases last : a.getLast? with
    | none => simp [last] at ends
    | some c =>
        obtain ⟨front, rfl⟩ := List.getLast?_eq_some_iff.mp last
        have gap : Text.isGap c := by simpa using ends
        simpa [inRunAfter] using gap_collapsible c gap
  unfold Alike squeeze
  rw [List.append_assoc, squeeze_from_append false a, squeeze_from_append false a, inside, squeeze_gaps gaps t all]

theorem alike_gap_before (gaps t : Chars) (all : ∀ c ∈ gaps, Text.isGap c)
    (begins : t.head?.any Text.isGap) : Alike (gaps ++ t) t := by
  cases gaps with
  | nil => exact alike_refl t
  | cons c gaps =>
      cases t with
      | nil => cases begins
      | cons d t =>
          have first := gap_collapsible c (all c (List.mem_cons_self))
          have next := gap_collapsible d (by simpa using begins)
          have others : ∀ e ∈ gaps, Text.isGap e := fun e member => all e (List.mem_cons_of_mem c member)
          unfold Alike squeeze
          rw [List.cons_append, squeeze_from_blank false c _ first, squeeze_from_blank false d _ next,
            squeeze_gaps gaps _ others, squeeze_from_blank true d _ next]
          rfl

theorem alike_gaps (a b : Chars) (blank : ∀ c ∈ a, Text.isGap c) (others : ∀ c ∈ b, Text.isGap c)
    (both : a = [] ↔ b = []) : Alike a b := by
  have one (c : Char) (s : Chars) (all : ∀ d ∈ c :: s, Text.isGap d) : squeeze (c :: s) = [' '] := by
    have rest := squeeze_gaps s [] (fun d member => all d (List.mem_cons_of_mem c member))
    rw [List.append_nil] at rest
    rw [squeeze, squeeze_from_blank false c s (gap_collapsible c (all c (List.mem_cons_self))), rest]
    rfl
  cases a with
  | nil =>
      obtain rfl := both.mp rfl
      exact alike_refl []
  | cons c a =>
      cases b with
      | nil => cases both.mpr rfl
      | cons d b => exact (one c a blank).trans (one d b others).symm

theorem head_squeeze (s : Chars) : (squeeze s).head? = some ' ' ↔ s.head?.any isCollapsible := by
  cases s with
  | nil => simp [squeeze, squeezeFrom]
  | cons c s =>
      by_cases blank : isCollapsible c
      · simp [squeeze, squeeze_from_blank false c s blank, blank]
      · have solid : isCollapsible c = false := by simpa using blank
        simp [squeeze, squeeze_from_solid false c s solid, solid, solid_no_space c solid]

theorem alike_head (a b : Chars) (same : Alike a b) : a.head?.any isCollapsible = b.head?.any isCollapsible := by
  have heads := head_squeeze a
  rw [same, head_squeeze b] at heads
  exact Bool.eq_iff_iff.mpr heads.symm

theorem last_in_run (s : Chars) : s.getLast?.any isCollapsible = inRunAfter false s := by
  cases last : s.getLast? with
  | none =>
      obtain rfl := List.getLast?_eq_none_iff.mp last
      rfl
  | some c =>
      obtain ⟨front, rfl⟩ := List.getLast?_eq_some_iff.mp last
      simp [inRunAfter]

theorem alike_last (a b : Chars) (same : Alike a b) :
    a.getLast?.any isCollapsible = b.getLast?.any isCollapsible := by
  rw [last_in_run, last_in_run, alike_in_run a b same]

end Downmark.Whitespace
