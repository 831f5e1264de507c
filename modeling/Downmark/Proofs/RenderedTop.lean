import Downmark.Proofs.BlockTexts
import Downmark.Proofs.PreparedShape
/-!
What of a tree is rendered: the children of a document or of its body, or the tree itself. Main statement:
rendering a document is rendering the prepared children of one of its nodes.
-/

set_option autoImplicit false

namespace Downmark.Render

open Node

def renderedBelow : Tree → List Tree
  | .document m ks => (((Node.document m ks).find? "body").map kids).getD ks
  | n => [n]

theorem body_found (tree : Tree) :
    ((Site.ofTree tree).find? "body").map Site.node = (tree.find? "body").map unmark := by
  have below : (Site.ofTree tree).all.tail.map Site.node = tree.descendants.map unmark := by
    have all := Site.within_nodes [] (unmark tree)
    rw [unmark, descendants_marks] at all
    rw [List.map_tail]
    exact congrArg List.tail all
  have named : isNamed "body" ∘ unmark = isNamed "body" := funext fun n => map_marks_named _ "body" n
  have found : ((Site.ofTree tree).all.tail.map Site.node).find? (isNamed "body") =
      ((Site.ofTree tree).find? "body").map Site.node := List.find?_map
  rw [below, List.find?_map, named] at found
  exact found.symm

theorem root_inside (site : Site) : (rootOf site).node ∈ site.node :: site.node.descendants := by
  obtain ⟨n, path⟩ := site
  cases n with
  | text | comment | element => exact List.mem_cons_self
  | document m ks =>
      change ((Site.find? "body" ⟨.document m ks, path⟩).getD _).node ∈ _
      cases found : Site.find? "body" ⟨.document m ks, path⟩ with
      | none => exact List.mem_cons_self
      | some body =>
          have below := List.mem_of_mem_tail (List.mem_of_find?_eq_some found)
          rw [← Site.within_nodes path]
          exact List.mem_map_of_mem below

-- What is rendered of a document are the children of a node of it, prepared.
structure RenderedTop (o : Options) (tree : Tree) (top : Tree) (head : Head) (path : List Step) (ks : List Marked) :
    Prop where
  inside : top ∈ tree :: tree.descendants
  named : top = tree ∨ top.isNamed "body" = true
  shape : prepare o (unmark top) = head.close ks
  below : bareAll ks = renderedBelow tree
  rendered : ∀ table, root table o (Site.ofTree tree) = nodes table o [] true head path [] [] ks

theorem bodiless_top (o : Options) (m : Unit) (ks : List Tree)
    (bodiless : (Site.ofTree (.document m ks)).find? "body" = none) :
    ∃ head ks', RenderedTop o (.document m ks) (.document m ks) head [] ks' := by
  have bared : bare (unmark (.document m ks)) = .document m ks := bare_marked _ _
  have top : rootOf (Site.ofTree (.document m ks)) = ⟨unmark (.document m ks), []⟩ := by
    change ((Site.ofTree (.document m ks)).find? "body").getD _ = _
    rw [bodiless]
    rfl
  have body := body_found (.document m ks)
  rw [bodiless, Option.map_none, eq_comm, Option.map_eq_none_iff] at body
  obtain ⟨m', ks', shape, same⟩ := bare_document_shape _ _ ((prepare_bare o (unmark (.document m ks))).trans bared)
  refine ⟨.document m', ks', List.mem_cons_self, .inl rfl, shape, ?_, fun table => ?_⟩
  · rw [renderedBelow, body]
    exact same
  · unfold root Site.prepared
    rw [top, shape]
    rfl

theorem body_top (o : Options) (m : Unit) (ks : List Tree) (body : Site)
    (found : (Site.ofTree (.document m ks)).find? "body" = some body) :
    ∃ top head ks', RenderedTop o (.document m ks) top head body.path ks' := by
  obtain ⟨n, path⟩ := body
  have top : rootOf (Site.ofTree (.document m ks)) = ⟨n, path⟩ := by
    change ((Site.ofTree (.document m ks)).find? "body").getD _ = _
    rw [found]
    rfl
  have named : n.isNamed "body" = true := by
    unfold Site.find? at found
    simpa using List.find?_some found
  have listed := body_found (.document m ks)
  rw [found, Option.map_some, eq_comm, Option.map_eq_some_iff] at listed
  obtain ⟨tree, first, rfl⟩ := listed
  have inside := List.mem_of_find?_eq_some first
  rw [unmark, map_marks_named] at named
  cases tree with
  | text | comment | document => cases named
  | element m' t a below =>
      have bared : bare (unmark (.element m' t a below)) = .element m' t a below := bare_marked _ _
      obtain ⟨mark, ks', shape, same⟩ :=
        bare_element_shape _ _ _ _ ((prepare_bare o (unmark (.element m' t a below))).trans bared)
      refine ⟨_, .element mark t a, ks', List.mem_cons_of_mem _ inside, .inr named, shape, ?_, fun table => ?_⟩
      · rw [renderedBelow, first]
        exact same
      · unfold root Site.prepared
        rw [top, shape]
        rfl

theorem document_top (o : Options) (m : Unit) (ks : List Tree) :
    ∃ top head path ks', RenderedTop o (.document m ks) top head path ks' := by
  cases found : (Site.ofTree (.document m ks)).find? "body" with
  | none =>
      obtain ⟨head, ks', rendered⟩ := bodiless_top o m ks found
      exact ⟨_, head, [], ks', rendered⟩
  | some body =>
      obtain ⟨top, head, ks', rendered⟩ := body_top o m ks body found
      exact ⟨top, head, body.path, ks', rendered⟩

end Downmark.Render
