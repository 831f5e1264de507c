import Downmark.Proofs.BlankElements
import Downmark.Proofs.RuleTexts
/-!
Trees with nothing untidy noted on them. Main statement: a prepared tree has no white space but single
spaces in its texts, and all markers of its items begin with something to see.
-/

set_option autoImplicit false

namespace Downmark

-- What is noted on the nodes: texts with no white space but single spaces, and the markers of items.
structure Mark.Tidy (m : Mark) : Prop where
  shown : ∀ shown ∈ m.shown, Spaced shown
  marker : ∀ marker ∈ m.marker, MarkerLike marker

mutual

def Tidy : Marked → Prop
  | .text m _ => m.Tidy
  | .comment _ _ => True
  | .element m _ _ ks => m.Tidy ∧ TidyAll ks
  | .document _ ks => TidyAll ks

def TidyAll : List Marked → Prop
  | [] => True
  | n :: rest => Tidy n ∧ TidyAll rest

end

mutual

theorem unmarked_tidy {μ : Type} (n : Node μ) : Tidy (n.mapMarks fun _ => {}) := by
  cases n with
  | text m data => exact ⟨by simp, by simp⟩
  | comment m data => trivial
  | element m t a ks => exact ⟨⟨by simp, by simp⟩, unmarked_all_tidy ks⟩
  | document m ks => exact unmarked_all_tidy ks

theorem unmarked_all_tidy {μ : Type} (ks : List (Node μ)) : TidyAll (Node.mapAllMarks (fun _ => {}) ks) := by
  cases ks with
  | nil => trivial
  | cons n rest => exact ⟨unmarked_tidy n, unmarked_all_tidy rest⟩

end

mutual

theorem fill_tidy (keep : Bool) (n : Marked) (texts : List Chars) (tidy : Tidy n) (spaced : ∀ s ∈ texts, Spaced s) :
    Tidy (Whitespace.fill keep n texts).1 ∧ ∀ s ∈ (Whitespace.fill keep n texts).2, Spaced s := by
  cases n with
  | text m data =>
      cases texts with
      | nil => exact ⟨tidy, spaced⟩
      | cons s rest =>
          rw [List.forall_mem_cons] at spaced
          exact ⟨⟨by simpa using spaced.1, tidy.marker⟩, spaced.2⟩
  | comment m data => exact ⟨trivial, spaced⟩
  | document m ks => exact ⟨tidy, spaced⟩
  | element m t a ks =>
      obtain ⟨filled, left⟩ := fill_all_tidy keep ks texts tidy.2 spaced
      rw [Whitespace.fill]
      split
      · exact ⟨tidy, spaced⟩
      · exact ⟨⟨tidy.1, filled⟩, left⟩

theorem fill_all_tidy (keep : Bool) (ks : List Marked) (texts : List Chars) (tidy : TidyAll ks)
    (spaced : ∀ s ∈ texts, Spaced s) :
    TidyAll (Whitespace.fillAll keep ks texts).1 ∧ ∀ s ∈ (Whitespace.fillAll keep ks texts).2, Spaced s := by
  cases ks with
  | nil => exact ⟨trivial, spaced⟩
  | cons n rest =>
      obtain ⟨here, left⟩ := fill_tidy keep n texts tidy.1 spaced
      obtain ⟨later, unused⟩ := fill_all_tidy keep rest _ tidy.2 left
      exact ⟨⟨here, later⟩, unused⟩

end

theorem collapse_tidy (keep : Bool) (n : Marked) (tidy : Tidy n) : Tidy (Whitespace.collapse keep n) := by
  have settled (ks : List Marked) (tidy : TidyAll ks) :=
    (fill_all_tidy keep ks _ tidy (Whitespace.settle_spaced (Whitespace.eventsOf keep ks))).1
  cases n with
  | text m data | comment m data => exact tidy
  | document m ks => exact settled ks tidy
  | element m t a ks =>
      unfold Whitespace.collapse
      dsimp only
      split
      · exact tidy
      · exact ⟨tidy.1, settled ks tidy.2⟩

mutual

theorem mark_blank_tidy (n : Marked) (tidy : Tidy n) : Tidy (Node.markBlank n).1 := by
  cases n with
  | text m data => exact tidy
  | comment m data => trivial
  | document m ks => exact mark_all_blank_tidy ks tidy
  | element m t a ks => exact ⟨⟨tidy.1.shown, tidy.1.marker⟩, mark_all_blank_tidy ks tidy.2⟩

theorem mark_all_blank_tidy (ks : List Marked) (tidy : TidyAll ks) : TidyAll (Node.markAllBlank ks).1 := by
  cases ks with
  | nil => trivial
  | cons n rest => exact ⟨mark_blank_tidy n tidy.1, mark_all_blank_tidy rest tidy.2⟩

end

theorem hand_out_tidy (markers : List Chars) (ks : List Marked) (like : ∀ marker ∈ markers, MarkerLike marker)
    (tidy : TidyAll ks) : TidyAll (ListMarker.handOut markers ks) := by
  fun_induction ListMarker.handOut markers ks with
  | case1 marker markers m a ks rest ih =>
      rw [List.forall_mem_cons] at like
      exact ⟨⟨⟨tidy.1.1.shown, by simpa using like.1⟩, tidy.1.2⟩, ih like.2 tidy.2⟩
  | case2 markers n rest _ ih => exact ⟨tidy.1, ih like tidy.2⟩
  | case3 => trivial

mutual

theorem mark_tidy (o : Options) (n : Marked) (tidy : Tidy n) : Tidy (ListMarker.mark o n) := by
  cases n with
  | text m data => exact tidy
  | comment m data => trivial
  | document m ks => exact mark_all_tidy o ks tidy
  | element m t a ks =>
      have below := mark_all_tidy o ks tidy.2
      rw [ListMarker.mark]
      split
      · exact ⟨tidy.1, hand_out_tidy _ _ (of_list_markers o _) below⟩
      · exact ⟨tidy.1, below⟩

theorem mark_all_tidy (o : Options) (ks : List Marked) (tidy : TidyAll ks) : TidyAll (ListMarker.markAll o ks) := by
  cases ks with
  | nil => trivial
  | cons n rest => exact ⟨mark_tidy o n tidy.1, mark_all_tidy o rest tidy.2⟩

end

theorem prepared_tidy (o : Options) (n : Marked) (tidy : Tidy n) : Tidy (prepare o n) :=
  mark_tidy o _ (mark_blank_tidy _ (collapse_tidy _ n tidy))

end Downmark
