import Downmark.Proofs.BlankElements
/-!
Marks on trees, and what is below a node. Main statements: changing the marks changes nothing about the nodes
below a node, and a tree without its marks is what was marked.
-/

set_option autoImplicit false

namespace Downmark

namespace Node

variable {μ ν ξ : Type}

mutual

theorem descendants_marks (f : μ → ν) (n : Node μ) :
    (n.mapMarks f).descendants = n.descendants.map (mapMarks f) := by
  cases n with
  | text m data | comment m data => rfl
  | element m t a ks | document m ks => exact forest_marks f ks

theorem forest_marks (f : μ → ν) (ks : List (Node μ)) :
    forest (mapAllMarks f ks) = (forest ks).map (mapMarks f) := by
  cases ks with
  | nil => rfl
  | cons n rest => simp [mapAllMarks, forest, descendants_marks f n, forest_marks f rest]

end

theorem kid_below (n child : Node μ) (listed : child ∈ n.kids) : child ∈ n.descendants := by
  rw [descendants_kids]
  generalize n.kids = ks at listed
  induction ks with
  | nil => cases listed
  | cons first rest ih =>
      rcases List.mem_cons.mp listed with rfl | later
      · exact List.mem_cons_self
      · exact List.mem_cons_of_mem _ (List.mem_append_right _ (ih later))

mutual

theorem descendants_below (n below : Node μ) (member : below ∈ n.descendants) :
    ∀ deeper ∈ below :: below.descendants, deeper ∈ n.descendants := by
  cases n with
  | text | comment => cases member
  | element m t a ks | document m ks => exact forest_below ks below member

theorem forest_below (ks : List (Node μ)) (below : Node μ) (member : below ∈ forest ks) :
    ∀ deeper ∈ below :: below.descendants, deeper ∈ forest ks := by
  cases ks with
  | nil => cases member
  | cons n rest =>
      intro deeper inside
      rw [forest, ← List.cons_append, List.mem_append] at member ⊢
      rcases member with here | later
      · refine .inl ?_
        rcases List.mem_cons.mp here with rfl | lower
        · exact inside
        · exact List.mem_cons_of_mem n (descendants_below n below lower deeper inside)
      · exact .inr (forest_below rest below later deeper inside)

end

theorem inside_below (n below : Node μ) (member : below ∈ n :: n.descendants) :
    ∀ deeper ∈ below :: below.descendants, deeper ∈ n :: n.descendants := by
  rcases List.mem_cons.mp member with rfl | lower
  · exact fun deeper inside => inside
  · exact fun deeper inside => List.mem_cons_of_mem n (descendants_below n below lower deeper inside)

theorem map_marks_named (f : μ → ν) (name : String) (n : Node μ) : (n.mapMarks f).isNamed name = n.isNamed name := by
  cases n <;> rfl

theorem map_marks_tag (f : μ → ν) (n : Node μ) : (n.mapMarks f).tag = n.tag := by
  cases n <;> rfl

theorem map_all_marks_map (f : μ → ν) (ks : List (Node μ)) : mapAllMarks f ks = ks.map (mapMarks f) := by
  induction ks with
  | nil => rfl
  | cons n rest ih => rw [mapAllMarks, ih, List.map_cons]

mutual

theorem map_marks_twice (f : μ → ν) (g : ν → ξ) (n : Node μ) : (n.mapMarks f).mapMarks g = n.mapMarks (g ∘ f) := by
  cases n with
  | text m data | comment m data => rfl
  | element m t a ks | document m ks => simp only [mapMarks, map_all_marks_twice f g ks, Function.comp_apply]

theorem map_all_marks_twice (f : μ → ν) (g : ν → ξ) (ks : List (Node μ)) :
    mapAllMarks g (mapAllMarks f ks) = mapAllMarks (g ∘ f) ks := by
  cases ks with
  | nil => rfl
  | cons n rest => simp only [mapAllMarks, map_marks_twice f g n, map_all_marks_twice f g rest]

end

-- A tree without marks.
def bare (n : Node μ) : Tree := n.mapMarks fun _ => ()

def bareAll (ks : List (Node μ)) : List Tree := mapAllMarks (fun _ => ()) ks

theorem bare_element (m : μ) (t : String) (a : Attrs) (ks : List (Node μ)) :
    bare (.element m t a ks) = .element () t a (bareAll ks) := by
  rw [bare, mapMarks, bareAll]

theorem bare_document (m : μ) (ks : List (Node μ)) : bare (.document m ks) = .document () (bareAll ks) := by
  rw [bare, mapMarks, bareAll]

theorem bare_cons (n : Node μ) (rest : List (Node μ)) : bareAll (n :: rest) = bare n :: bareAll rest := by
  rw [bareAll, mapAllMarks, bareAll, bare]

theorem bare_element_shape (n : Node μ) (t : String) (a : Attrs) (ks : List Tree) (same : bare n = .element () t a ks) :
    ∃ m ks', n = .element m t a ks' ∧ bareAll ks' = ks := by
  cases n with
  | element m t' a' ks' =>
      rw [bare_element] at same
      cases same
      exact ⟨m, ks', rfl, rfl⟩
  | text | comment | document => cases same

theorem bare_document_shape (n : Node μ) (ks : List Tree) (same : bare n = .document () ks) :
    ∃ m ks', n = .document m ks' ∧ bareAll ks' = ks := by
  cases n with
  | document m ks' =>
      rw [bare_document] at same
      cases same
      exact ⟨m, ks', rfl, rfl⟩
  | text | comment | element => cases same

theorem bare_cons_shape (ns : List (Node μ)) (n : Tree) (rest : List Tree) (same : bareAll ns = n :: rest) :
    ∃ n' rest', ns = n' :: rest' ∧ bare n' = n ∧ bareAll rest' = rest := by
  cases ns with
  | nil => cases same
  | cons n' rest' =>
      rw [bare_cons] at same
      cases same
      exact ⟨n', rest', rfl, rfl, rfl⟩

mutual

theorem map_marks_same (n : Node μ) : n.mapMarks id = n := by
  cases n with
  | text m data | comment m data => rfl
  | element m t a ks | document m ks => rw [mapMarks, map_all_marks_same ks, id_eq]

theorem map_all_marks_same (ks : List (Node μ)) : mapAllMarks id ks = ks := by
  cases ks with
  | nil => rfl
  | cons n rest => rw [mapAllMarks, map_marks_same n, map_all_marks_same rest]

end

theorem bare_marked (f : Unit → μ) (n : Tree) : bare (n.mapMarks f) = n := by
  rw [bare, map_marks_twice]
  exact map_marks_same n

end Node

-- Only the code is found, and it need not be the child that makes the element a block.
theorem block_has_code {μ : Type} (n : Node μ) (block : Code.isBlock n = true) :
    ∃ code, Code.codeElement n = .ok code := by
  obtain ⟨-, single⟩ := (Bool.and_eq_true _ _).mp block
  split at single
  · rename_i child alone
    have listed : child ∈ Node.significant n.kids := by
      rw [alone]
      exact List.mem_singleton_self child
    have below := Node.kid_below n child (List.mem_filter.mp listed).1
    have found : (n.find? "code").isSome = true := List.find?_isSome.mpr ⟨child, below, single⟩
    obtain ⟨code, found⟩ := Option.isSome_iff_exists.mp found
    exact ⟨code, by rw [Code.codeElement, found]⟩
  · cases single

theorem block_read {μ : Type} (n : Node μ) (block : Code.isBlock n = true) :
    ∃ text info, Code.blockText n = .ok text ∧ Code.language n = .ok info := by
  obtain ⟨code, found⟩ := block_has_code n block
  rw [Code.blockText, Code.language, found]
  exact ⟨_, _, rfl, rfl⟩

namespace Site

mutual

theorem within_nodes (path : List Step) (n : Marked) : (within path n).map Site.node = n :: n.descendants := by
  cases n with
  | text m data | comment m data => rfl
  | element m t a ks => exact congrArg (List.cons _) (among_nodes _ path [] ks)
  | document m ks => exact congrArg (List.cons _) (among_nodes _ path [] ks)

theorem among_nodes (head : Head) (path : List Step) (before ks : List Marked) :
    (among head path before ks).map Site.node = Node.forest ks := by
  cases ks with
  | nil => rfl
  | cons n rest =>
      rw [among, List.map_append, within_nodes _ n, among_nodes head path _ rest]
      rfl

end

end Site

end Downmark
