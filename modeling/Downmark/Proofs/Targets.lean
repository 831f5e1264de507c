import Downmark.Proofs.PreparedShape
/-!
What the links and images of a tree lead to. Only elements count that are rendered, and one element comes after
another if it is finished after it. Main statements: preparing a tree changes nothing about its targets, and
blank elements have none.
-/

set_option autoImplicit false

namespace Downmark

-- A destination, and a title if there is one.
abbrev Target := Chars × Option Chars

namespace Node

variable {μ ν : Type}

def target? (n : Node μ) : Option Target :=
  if n.isNamed "a" && !(n.attr "href").isEmpty then some (n.attr "href", Link.title? n)
  else if n.isNamed "img" && !(n.attr "src").isEmpty then some (n.attr "src", Link.title? n)
  else none

-- Code blocks are written from their text, and removed elements not at all.
def isUnread (n : Node μ) : Bool := Code.isBlock n || removedTags.contains n.tag

mutual

def targets : Node μ → List Target
  | .text _ _ => []
  | .comment _ _ => []
  | .document _ _ => []
  | .element m t a ks =>
      if isUnread (.element m t a ks) then [] else targetsOf ks ++ (target? (.element m t a ks)).toList

def targetsOf : List (Node μ) → List Target
  | [] => []
  | n :: rest => targets n ++ targetsOf rest

end

-- No element has children that is written without an end tag.
def VoidsEmpty (n : Node μ) : Prop := ∀ below ∈ n :: n.descendants, below.isVoid = true → below.kids = []

theorem significant_marks (f : μ → ν) (ks : List (Node μ)) :
    significant (mapAllMarks f ks) = (significant ks).map (mapMarks f) := by
  rw [map_all_marks_map, significant, significant, List.filter_map]
  refine congrArg _ (List.filter_congr fun n _ => ?_)
  cases n <;> rfl

theorem map_marks_block (f : μ → ν) (n : Node μ) : Code.isBlock (n.mapMarks f) = Code.isBlock n := by
  have kids : (n.mapMarks f).kids = mapAllMarks f n.kids := by cases n <;> rfl
  unfold Code.isBlock
  rw [map_marks_named, kids, significant_marks]
  cases significant n.kids with
  | nil => rfl
  | cons first rest =>
      cases rest with
      | nil => simp [map_marks_named]
      | cons => rfl

theorem map_marks_unread (f : μ → ν) (n : Node μ) : (n.mapMarks f).isUnread = n.isUnread := by
  rw [isUnread, map_marks_block, map_marks_tag, isUnread]

mutual

theorem map_marks_targets (f : μ → ν) (n : Node μ) : (n.mapMarks f).targets = n.targets := by
  cases n with
  | text | comment | document => rfl
  | element m t a ks =>
      have unread := map_marks_unread f (.element m t a ks)
      rw [mapMarks] at unread ⊢
      rw [targets, targets, unread, map_all_marks_targets f ks]
      rfl

theorem map_all_marks_targets (f : μ → ν) (ks : List (Node μ)) : targetsOf (mapAllMarks f ks) = targetsOf ks := by
  cases ks with
  | nil => rfl
  | cons n rest => rw [mapAllMarks, targetsOf, targetsOf, map_marks_targets f n, map_all_marks_targets f rest]

end

theorem bare_targets (n : Node μ) : n.bare.targets = n.targets := map_marks_targets _ n

theorem bare_all_targets (ks : List (Node μ)) : targetsOf (bareAll ks) = targetsOf ks := map_all_marks_targets _ ks

theorem map_marks_voids (f : μ → ν) (n : Node μ) : (n.mapMarks f).VoidsEmpty ↔ n.VoidsEmpty := by
  have void (n : Node μ) : (n.mapMarks f).isVoid = n.isVoid := by rw [isVoid, map_marks_tag, isVoid]
  have kids (n : Node μ) : (n.mapMarks f).kids = [] ↔ n.kids = [] := by
    cases n <;> simp [mapMarks, Node.kids, map_all_marks_map]
  unfold VoidsEmpty
  rw [descendants_marks, ← List.map_cons]
  simp only [List.forall_mem_map, void, kids]

theorem bare_voids (n : Node μ) : n.bare.VoidsEmpty ↔ n.VoidsEmpty := map_marks_voids _ n

theorem voids_inside (n below : Node μ) (voids : n.VoidsEmpty) (member : below ∈ n :: n.descendants) :
    below.VoidsEmpty :=
  fun deeper inside => voids deeper (inside_below n below member deeper inside)

mutual

theorem blank_targets (n : Node μ) (blank : n.isSolid = false) : n.targets = [] := by
  cases n with
  | text | comment | document => rfl
  | element m t a ks =>
      rw [element_solid, Bool.or_eq_false_iff] at blank
      obtain ⟨tag, below⟩ := blank
      have link : t ≠ "a" := by
        rintro rfl
        exact absurd tag (by decide)
      have image : t ≠ "img" := by
        rintro rfl
        exact absurd tag (by decide)
      have none : target? (.element m t a ks) = none := by simp [target?, isNamed, link, image]
      rw [targets, blank_targets_of ks below, none]
      split <;> rfl

theorem blank_targets_of (ks : List (Node μ)) (blank : ks.any isSolid = false) : targetsOf ks = [] := by
  cases ks with
  | nil => rfl
  | cons n rest =>
      rw [List.any_cons, Bool.or_eq_false_iff] at blank
      rw [targetsOf, blank_targets n blank.1, blank_targets_of rest blank.2]
      rfl

end

end Node

theorem prepare_targets (o : Options) (n : Marked) : (prepare o n).targets = n.targets := by
  rw [← Node.bare_targets, prepare_bare, Node.bare_targets]

theorem prepare_voids (o : Options) (n : Marked) : (prepare o n).VoidsEmpty ↔ n.VoidsEmpty := by
  rw [← Node.bare_voids, prepare_bare, Node.bare_voids]

end Downmark
