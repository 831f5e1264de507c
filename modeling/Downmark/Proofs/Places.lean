import Downmark.Proofs.PreparedBlocks
import Downmark.Proofs.PreparedShape
/-!
Where the texts of a tree stand: the elements around each. Main statements: preparing a tree moves no text, and
something is noted on just those texts that do not stand in an element whose text is kept as it is.
-/

set_option autoImplicit false

namespace Downmark

open Node Whitespace

/-- A text of a tree. -/
structure TextPlace (μ : Type) where
  /-- The names of the elements that it stands in, innermost first. -/
  above : List String
  mark : μ
  data : Chars

namespace TextPlace

variable {μ ν : Type}

def mapMark (f : μ → ν) (place : TextPlace μ) : TextPlace ν := ⟨place.above, f place.mark, place.data⟩

def Unread (place : TextPlace Mark) : Prop := place.mark.shown = none

def IsKept (keep : Bool) (place : TextPlace μ) : Prop := ∃ t ∈ place.above, Whitespace.isKept keep t = true

def Settled (keep : Bool) (place : TextPlace Mark) : Prop := place.mark.shown = none ↔ place.IsKept keep

end TextPlace

namespace Node

variable {μ ν : Type}

mutual

/-- The texts of a node that are rendered, in document order. Documents inside of documents have none. -/
def places (above : List String) : Node μ → List (TextPlace μ)
  | .text m data => [⟨above, m, data⟩]
  | .comment _ _ => []
  | .document _ _ => []
  | .element _ t _ ks => placesAmong (t :: above) ks

def placesAmong (above : List String) : List (Node μ) → List (TextPlace μ)
  | [] => []
  | n :: rest => places above n ++ placesAmong above rest

end

/-- The texts of a root. -/
def rootPlaces : Node μ → List (TextPlace μ)
  | .document _ ks => placesAmong [] ks
  | n => places [] n

mutual

theorem places_marks (f : μ → ν) (above : List String) (n : Node μ) :
    places above (n.mapMarks f) = (places above n).map (TextPlace.mapMark f) := by
  cases n with
  | text m data | comment m data | document m ks => rfl
  | element m t a ks => exact places_among_marks f (t :: above) ks

theorem places_among_marks (f : μ → ν) (above : List String) (ks : List (Node μ)) :
    placesAmong above (mapAllMarks f ks) = (placesAmong above ks).map (TextPlace.mapMark f) := by
  cases ks with
  | nil => rfl
  | cons n rest =>
      rw [mapAllMarks, placesAmong, placesAmong, List.map_append, places_marks f above n,
        places_among_marks f above rest]

end

theorem root_places_marks (f : μ → ν) (n : Node μ) :
    (n.mapMarks f).rootPlaces = n.rootPlaces.map (TextPlace.mapMark f) := by
  cases n with
  | document m ks => exact places_among_marks f [] ks
  | text m data | comment m data => rfl
  | element m t a ks => exact places_marks f [] (.element m t a ks)

mutual

theorem places_inside (above : List String) (n : Node μ) (place : TextPlace μ) (member : place ∈ places above n) :
    above ⊆ place.above := by
  cases n with
  | text m data =>
      obtain rfl := List.mem_singleton.mp member
      exact List.Subset.refl above
  | comment m data | document m ks => cases member
  | element m t a ks =>
      exact List.Subset.trans (List.subset_cons_self t above) (places_among_inside (t :: above) ks place member)

theorem places_among_inside (above : List String) (ks : List (Node μ)) (place : TextPlace μ)
    (member : place ∈ placesAmong above ks) : above ⊆ place.above := by
  cases ks with
  | nil => cases member
  | cons n rest =>
      rcases List.mem_append.mp member with here | later
      · exact places_inside above n place here
      · exact places_among_inside above rest place later

end

end Node

namespace Whitespace

-- The walk for white space stops at an element that is kept, so what stands in it has no note before or after.
theorem kept_settled (keep : Bool) (m : Mark) (t : String) (a : Attrs) (ks : List Marked) (above : List String)
    (kept : isKept keep t = true) (place : TextPlace Mark) (member : place ∈ places above (.element m t a ks))
    (unread : place.Unread) : place.Settled keep :=
  have around := places_among_inside (t :: above) ks place member
  ⟨fun _ => ⟨t, around List.mem_cons_self, kept⟩, fun _ => unread⟩

mutual

theorem fill_settled (keep : Bool) (n : Marked) (above : List String) (texts : List Chars)
    (enough : texts.length = textCount (events keep n)) (loose : ∀ t ∈ above, isKept keep t = false)
    (unread : ∀ place ∈ places above n, place.Unread) :
    ∀ place ∈ places above (fill keep n texts).1, place.Settled keep := by
  cases n with
  | text m data =>
      obtain ⟨s, rfl⟩ := List.length_eq_one_iff.mp enough
      intro place member
      obtain rfl := List.mem_singleton.mp member
      refine ⟨nofun, ?_⟩
      rintro ⟨t, inside, kept⟩
      rw [loose t inside] at kept
      cases kept
  | comment m data | document m ks =>
      obtain rfl := List.eq_nil_of_length_eq_zero enough
      exact fun place member => nomatch member
  | element m t a ks =>
      rw [element_text_count] at enough
      rw [fill]
      cases kept : isKept keep t with
      | true =>
          rw [if_pos rfl]
          exact fun place member => kept_settled keep m t a ks above kept place member (unread place member)
      | false =>
          rw [kept, if_neg Bool.false_ne_true] at enough
          rw [if_neg Bool.false_ne_true]
          exact fill_all_settled keep ks (t :: above) texts enough (List.forall_mem_cons.mpr ⟨kept, loose⟩) unread

theorem fill_all_settled (keep : Bool) (ks : List Marked) (above : List String) (texts : List Chars)
    (enough : texts.length = textCount (eventsOf keep ks)) (loose : ∀ t ∈ above, isKept keep t = false)
    (unread : ∀ place ∈ placesAmong above ks, place.Unread) :
    ∀ place ∈ placesAmong above (fillAll keep ks texts).1, place.Settled keep := by
  cases ks with
  | nil => exact fun place member => nomatch member
  | cons n rest =>
      rw [eventsOf, text_count_append] at enough
      obtain ⟨here, there, rfl, first, later⟩ := parted_at texts _ _ enough
      rw [placesAmong, List.forall_mem_append] at unread
      rw [fillAll, fill_enough keep n here there first, placesAmong, List.forall_mem_append]
      exact ⟨fill_settled keep n above here first loose unread.1,
        fill_all_settled keep rest above there later loose unread.2⟩

end

theorem collapse_settled (keep : Bool) (n : Marked) (container : ∀ m data, n ≠ .text m data)
    (unread : ∀ place ∈ n.rootPlaces, place.Unread) : ∀ place ∈ (collapse keep n).rootPlaces, place.Settled keep := by
  cases n with
  | text m data => exact absurd rfl (container m data)
  | comment m data => exact fun place member => nomatch member
  | document m ks => exact fill_all_settled keep ks [] _ (settle_count _) nofun unread
  | element m t a ks =>
      unfold collapse
      dsimp only
      cases kept : isKept keep t with
      | true =>
          rw [if_pos rfl]
          exact fun place member => kept_settled keep m t a ks [] kept place member (unread place member)
      | false =>
          rw [if_neg Bool.false_ne_true]
          exact fill_all_settled keep ks [t] _ (settle_count _) (List.forall_mem_singleton.mpr kept) unread

end Whitespace

theorem prepare_settled (o : Options) (n : Marked) (container : ∀ m data, n ≠ .text m data)
    (unread : ∀ place ∈ n.rootPlaces, place.Unread) :
    ∀ place ∈ (prepare o n).rootPlaces, place.Settled o.preformattedCode := by
  intro place member
  have same : (prepare o n).mapMarks Mark.shown = (collapse o.preformattedCode n).mapMarks Mark.shown := by
    rw [prepare, mark_unnoted Mark.shown (fun _ _ => rfl), mark_blank_unnoted Mark.shown fun _ _ => rfl]
  have marked := List.mem_map_of_mem (f := TextPlace.mapMark Mark.shown) member
  rw [← root_places_marks, same, root_places_marks] at marked
  obtain ⟨collapsed, there, alike⟩ := List.mem_map.mp marked
  obtain ⟨above, shown, -⟩ := TextPlace.mk.inj alike
  have settled := collapse_settled o.preformattedCode n container unread collapsed there
  unfold TextPlace.Settled TextPlace.IsKept at settled ⊢
  rwa [above, shown] at settled

theorem prepare_places (o : Options) (n : Marked) :
    (prepare o n).rootPlaces.map (TextPlace.mapMark fun _ => ()) =
      n.rootPlaces.map (TextPlace.mapMark fun _ => ()) := by
  rw [← root_places_marks, ← root_places_marks]
  exact congrArg rootPlaces (prepare_bare o n)

theorem fresh_unread (tree : Tree) (fresh : Mark) (blank : fresh.shown = none) :
    ∀ place ∈ (tree.mapMarks fun _ => fresh).rootPlaces, place.Unread := by
  intro place member
  rw [root_places_marks] at member
  obtain ⟨_, -, rfl⟩ := List.mem_map.mp member
  exact blank

end Downmark
