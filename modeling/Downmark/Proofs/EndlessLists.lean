import Downmark.Proofs.PreparedShape
import Downmark.Render.Walk
/-!
Numbered lists whose last number has more digits than are ever written. Main statement: no marker is refused
below a node unless there is such a list.
-/

set_option autoImplicit false

namespace Downmark

open Node

section

variable {μ ν : Type}

def Node.isEndlessList (n : Node μ) : Bool := n.isNamed "ol" && ListMarker.isEndless n.attrs n.kids

def Node.HasEndlessList (n : Node μ) : Prop := ∃ below ∈ n :: n.descendants, below.isEndlessList = true

theorem map_marks_endless (f : μ → ν) (n : Node μ) : (n.mapMarks f).isEndlessList = n.isEndlessList := by
  have count : ListMarker.countItems (n.mapMarks f).kids = ListMarker.countItems n.kids := by
    have kids : (n.mapMarks f).kids = n.kids.map (mapMarks f) := by
      cases n <;> simp [mapMarks, Node.kids, map_all_marks_map]
    rw [kids, ListMarker.countItems, List.countP_map]
    exact congrArg (fun p => n.kids.countP p) (funext fun child => map_marks_named f "li" child)
  have attrs : (n.mapMarks f).attrs = n.attrs := by cases n <;> rfl
  rw [isEndlessList, map_marks_named, ListMarker.isEndless, count, attrs]
  rfl

theorem bare_endless (n : Node μ) : n.bare.HasEndlessList ↔ n.HasEndlessList := by
  unfold HasEndlessList bare
  rw [descendants_marks, ← List.map_cons]
  constructor
  · rintro ⟨below, member, endless⟩
    obtain ⟨n', inside, rfl⟩ := List.mem_map.mp member
    exact ⟨n', inside, (map_marks_endless _ n').symm.trans endless⟩
  · rintro ⟨below, member, endless⟩
    exact ⟨_, List.mem_map_of_mem member, (map_marks_endless _ below).trans endless⟩

theorem endless_inside (n below : Node μ) (member : below ∈ n :: n.descendants) (endless : below.HasEndlessList) :
    n.HasEndlessList := by
  obtain ⟨deeper, inside, long⟩ := endless
  exact ⟨deeper, inside_below n below member deeper inside, long⟩

end

theorem prepare_endless (o : Options) (n : Marked) : (prepare o n).HasEndlessList ↔ n.HasEndlessList := by
  rw [← bare_endless, prepare_bare, bare_endless]

namespace Render

theorem around_closed (n : Marked) (step : Step) (path : List Step) :
    ListMarker.isEndlessAround ⟨n, step :: path⟩ = (step.head.close (step.kids n)).isEndlessList := by
  obtain ⟨head, before, after, listed⟩ := step
  cases head with
  | document m => rfl
  | element m t a =>
      by_cases numbered : t = "ol"
      · subst numbered
        rfl
      · simp [ListMarker.isEndlessAround, Head.close, isEndlessList, isNamed, numbered]

theorem endless_marker (site : Site) (endless : needsEndlessMarker site = true) :
    site.node.isEndlessList = true ∨ ListMarker.isEndlessAround site = true := by
  obtain ⟨n, path⟩ := site
  unfold needsEndlessMarker at endless
  split at endless
  · rename_i m a ks same
    rw [show n = _ from same]
    exact .inl endless
  · exact .inr ((Bool.and_eq_true _ _).mp endless).2
  · cases endless

mutual

theorem endless_within (path : List Step) (n : Marked) :
    ∀ site ∈ Site.within path n, needsEndlessMarker site = true →
      n.HasEndlessList ∨ ListMarker.isEndlessAround ⟨n, path⟩ = true := by
  have here (site : Site) (same : site = ⟨n, path⟩) (endless : needsEndlessMarker site = true) :
      n.HasEndlessList ∨ ListMarker.isEndlessAround ⟨n, path⟩ = true := by
    subst same
    exact (endless_marker _ endless).imp (fun long => ⟨n, List.mem_cons_self, long⟩) id
  intro site member endless
  cases n with
  | text | comment => exact here site (List.mem_singleton.mp member) endless
  | element m t a ks =>
      rcases List.mem_cons.mp member with same | below
      · exact here site same endless
      · exact .inl (endless_among (.element m t a) path [] ks site below endless)
  | document m ks =>
      rcases List.mem_cons.mp member with same | below
      · exact here site same endless
      · exact .inl (endless_among (.document m) path [] ks site below endless)

theorem endless_among (head : Head) (path : List Step) (before ks : List Marked) :
    ∀ site ∈ Site.among head path before ks, needsEndlessMarker site = true →
      (head.close (before.reverse ++ ks)).HasEndlessList := by
  intro site member endless
  cases ks with
  | nil => cases member
  | cons n rest =>
      have whole : n ∈ (head.close (before.reverse ++ n :: rest)).descendants := by
        refine kid_below _ n ?_
        cases head <;> simp [Head.close, kids]
      have first (path : List Step) (member : site ∈ Site.within path n)
          (around : ListMarker.isEndlessAround ⟨n, path⟩ = true →
            (head.close (before.reverse ++ n :: rest)).isEndlessList = true) :
          (head.close (before.reverse ++ n :: rest)).HasEndlessList := by
        rcases endless_within path n site member endless with inside | outside
        · exact endless_inside _ n (List.mem_cons_of_mem _ whole) inside
        · exact ⟨_, List.mem_cons_self, around outside⟩
      rcases List.mem_append.mp member with here | later
      · refine first _ here fun outside => ?_
        unfold Site.pathTo at outside
        split at outside
        · rwa [around_closed] at outside
        · cases outside
      · have rest := endless_among head path (n :: before) rest site later endless
        rwa [List.reverse_cons, List.append_assoc] at rest

end

end Render

end Downmark
