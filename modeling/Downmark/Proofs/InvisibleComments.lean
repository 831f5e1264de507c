import Downmark.Proofs.CommentSites
/-!
Rendering trees with and without their comments, side by side. Main statement: comments are invisible, so that
a tree and the same tree without its comments are rendered alike.
-/

set_option autoImplicit false

namespace Downmark

open Node

def Node.CommentsKnown (n : Marked) : Prop := KnownComments n.descendants

theorem known_adopted (n : Marked) : n.CommentsKnown ↔
    ∀ below ∈ (n.mapMarks Mark.adopted).descendants, below.isComment = true → below.mark = true := by
  have mark (below : Marked) : (below.mapMarks Mark.adopted).mark = below.mark.adopted := by cases below <;> rfl
  rw [descendants_marks, List.forall_mem_map]
  simp only [map_marks_comment, mark]
  rfl

theorem prepare_known (o : Options) (n : Marked) : (prepare o n).CommentsKnown ↔ n.CommentsKnown := by
  rw [known_adopted, prepare_adopted, known_adopted]

-- A tree that was just read has no node that does not know its container.
theorem of_tree_known (tree : Tree) : (Site.ofTree tree).node.CommentsKnown := by
  intro below member _
  change below ∈ (tree.mapMarks _).descendants at member
  rw [descendants_marks] at member
  obtain ⟨n, -, rfl⟩ := List.mem_map.mp member
  cases n <;> rfl

theorem known_below (n below : Marked) (known : n.CommentsKnown) (member : below ∈ n.descendants) :
    below.CommentsKnown :=
  fun deeper inside => known deeper (descendants_below n below member deeper (List.mem_cons_of_mem below inside))

namespace Site

mutual

theorem uncommented_within (path : List Step) (n : Marked) (kept : n.isComment = false) :
    within (path.map Step.uncommented) n.uncommented =
      ((within path n).filter fun site => !site.node.isComment).map uncommented := by
  cases n with
  | text m data => rfl
  | comment m data => cases kept
  | element m t a ks =>
      have below := uncommented_among (.element m t a) path [] ks
      rw [Node.uncommented, within, within, List.filter_cons_of_pos (by rfl), List.map_cons, ← below]
      rfl
  | document m ks =>
      have below := uncommented_among (.document m) path [] ks
      rw [Node.uncommented, within, within, List.filter_cons_of_pos (by rfl), List.map_cons, ← below]
      rfl

theorem uncommented_among (head : Head) (path : List Step) (before ks : List Marked) :
    among head (path.map Step.uncommented) (uncommentedAll before) (uncommentedAll ks) =
      ((among head path before ks).filter fun site => !site.node.isComment).map uncommented := by
  cases ks with
  | nil => rfl
  | cons n rest =>
      have later := uncommented_among head path (n :: before) rest
      rcases comment_or_kept n with ⟨m, data, rfl⟩ | kept
      · rw [uncommented_comment, among, List.filter_append, List.map_append, ← later, uncommented_comment]
        rfl
      · have here := uncommented_within (pathTo head path before rest n) n kept
        rw [uncommented_cons n rest kept, among, among, List.filter_append, List.map_append, ← later, ← here,
          uncommented_path, uncommented_cons n before kept]

end

theorem uncommented_found (name : String) (site : Site) (kept : site.node.isComment = false) :
    site.uncommented.find? name = (site.find? name).map uncommented := by
  obtain ⟨n, path⟩ := site
  have all : ∃ below, within path n = ⟨n, path⟩ :: below := by cases n <;> exact ⟨_, rfl⟩
  obtain ⟨below, all⟩ := all
  have named : (fun site : Site => site.node.isNamed name) ∘ uncommented = fun site => site.node.isNamed name :=
    funext fun site => uncommented_named site.node name
  have comments (site : Site) : decide ((!site.node.isComment) = true ∧ site.node.isNamed name = true) =
      site.node.isNamed name := by
    cases comment : site.node.isComment with
    | true => simp [comment_unnamed name site.node comment]
    | false => simp
  change (within (path.map Step.uncommented) n.uncommented).tail.find? _ = _
  rw [uncommented_within path n kept, find?, Site.all, all, List.filter_cons_of_pos (by simpa using kept), List.map_cons,
    List.tail_cons, List.tail_cons, List.find?_map, named, List.find?_filter]
  simp only [comments]

end Site

namespace Render

theorem uncommented_root_of (site : Site) : rootOf site.uncommented = (rootOf site).uncommented := by
  obtain ⟨n, path⟩ := site
  cases n with
  | text | comment | element => rfl
  | document m ks =>
      have found := Site.uncommented_found "body" ⟨.document m ks, path⟩ rfl
      change ((Site.uncommented ⟨.document m ks, path⟩).find? "body").getD _ = _
      rw [found]
      unfold rootOf
      dsimp only
      cases Site.find? "body" ⟨.document m ks, path⟩ <;> rfl

theorem root_known (site : Site) (known : site.node.CommentsKnown) : (rootOf site).node.CommentsKnown := by
  obtain ⟨n, path⟩ := site
  cases n with
  | text | comment | element => exact known
  | document m ks =>
      unfold rootOf
      dsimp only
      cases found : Site.find? "body" ⟨.document m ks, path⟩ with
      | none => exact known
      | some body =>
          have member : body ∈ Site.among (.document m) path [] ks := List.mem_of_find?_eq_some found
          have below : body.node ∈ forest ks := by
            rw [← Site.among_nodes (.document m) path [] ks]
            exact List.mem_map_of_mem member
          exact known_below (.document m ks) body.node known below

theorem enter_uncommented (o : Options) (site : Site) (kept : site.node.isComment = false) :
    enter o site.uncommented = enter o site := by
  funext s
  rw [enter_eq, enter_eq, Site.uncommented_endless site kept]
  simp only [opened, Site.uncommented_marker, Site.uncommented_site_tag]

theorem leave_uncommented (o : Options) (site : Site) : leave o site.uncommented = leave o site := by
  unfold leave
  rw [Site.uncommented_site_tag]

theorem replace_uncommented (rule : Rule) (ignores : rule.IgnoresComments) (o : Options) (site : Site)
    (known : site.CommentsKnown) (content preceding : Chars) :
    replace rule site.uncommented o content preceding = replace rule site o content preceding := by
  have block : site.uncommented.node.isBlock = site.node.isBlock := uncommented_block site.node
  have space (s : State) := State.uncommented_next_space s o site known
  have written (core : Chars) := ignores.replacement core site o known
  simp only [replace, block, Site.uncommented_is_code, space, written]

section

variable (table : RuleTable) (o : Options)

theorem element_uncommented (ignore : ∀ rule ∈ table.inOrder, rule.IgnoresComments) (outer : List Open)
    (isBlock : Bool) (path : List Step) (output : Chars) (m : Mark) (t : String) (a : Attrs) (ks : List Marked)
    (known : Site.CommentsKnown ⟨.element m t a ks, path⟩)
    (below : nodes table o (⟨output, isBlock⟩ :: outer) (isBlockTag t) (.element m t a) (path.map Step.uncommented) []
      [] (uncommentedAll ks) = nodes table o (⟨output, isBlock⟩ :: outer) (isBlockTag t) (.element m t a) path [] [] ks) :
    elementText table o outer isBlock (path.map Step.uncommented) output m t a (uncommentedAll ks) =
      elementText table o outer isBlock path output m t a ks := by
  have same : table.find ⟨.element m t a (uncommentedAll ks), path.map Step.uncommented⟩ o m.blank =
      table.find ⟨.element m t a ks, path⟩ o m.blank :=
    RuleTable.find_same table _ _ o m.blank fun rule listed => (ignore rule listed).claims ⟨.element m t a ks, path⟩ o rfl
  cases found : table.find ⟨.element m t a ks, path⟩ o m.blank with
  | error failure =>
      rw [element_failed _ _ _ _ _ _ _ _ _ _ failure found, element_failed _ _ _ _ _ _ _ _ _ _ failure (same.trans found)]
  | ok rule =>
      have ignores := RuleTable.find_ignores table ignore _ o m.blank rule found
      have content : contentText table o (⟨output, isBlock⟩ :: outer) m t a (path.map Step.uncommented)
          (uncommentedAll ks) rule = contentText table o (⟨output, isBlock⟩ :: outer) m t a path ks rule := by
        rw [contentText, contentText, below]
      have entering := enter_uncommented o ⟨.element m t a ks, path⟩ rfl
      have leaving := leave_uncommented o ⟨.element m t a ks, path⟩
      have replacing := replace_uncommented rule ignores o ⟨.element m t a ks, path⟩ known
      rw [Site.uncommented, Node.uncommented] at entering leaving replacing
      rw [element_found _ _ _ _ _ _ _ _ _ _ rule found, element_found _ _ _ _ _ _ _ _ _ _ rule (same.trans found),
        entering, leaving, content]
      simp only [replacing]

mutual

theorem node_uncommented (ignore : ∀ rule ∈ table.inOrder, rule.IgnoresComments) (outer : List Open) (isBlock : Bool)
    (path : List Step) (output : Chars) (n : Marked) (around : Site.CommentsKnown ⟨n, path⟩) (known : n.CommentsKnown) :
    node table o outer isBlock (path.map Step.uncommented) output n.uncommented =
      node table o outer isBlock path output n := by
  cases n with
  | text m data => rw [Node.uncommented, node, node]
  | comment m data => rw [Node.uncommented, node, node]
  | document m ks => rw [Node.uncommented, node, node]
  | element m t a ks =>
      rw [Node.uncommented, node_element, node_element,
        element_uncommented table o ignore outer isBlock path output m t a ks around]
      exact nodes_uncommented ignore _ _ (.element m t a) path [] [] ks known

theorem nodes_uncommented (ignore : ∀ rule ∈ table.inOrder, rule.IgnoresComments) (outer : List Open) (isBlock : Bool)
    (head : Head) (path : List Step) (before : List Marked) (output : Chars) (ks : List Marked)
    (known : KnownComments (forest ks)) :
    nodes table o outer isBlock head (path.map Step.uncommented) (uncommentedAll before) output (uncommentedAll ks) =
      nodes table o outer isBlock head path before output ks := by
  cases ks with
  | nil => rw [uncommentedAll, nodes, nodes]
  | cons n rest =>
      have others : KnownComments (forest rest) := fun below member => known below (by simp [forest, member])
      have inside : n.CommentsKnown := fun below member => known below (by simp [forest, member])
      rcases comment_or_kept n with ⟨m, data, rfl⟩ | kept
      · have later := nodes_uncommented ignore outer isBlock head path (.comment m data :: before) output rest others
        rw [uncommented_comment] at later ⊢
        rw [later, nodes, node, pure_bind]
      · have around : Site.CommentsKnown ⟨n, Site.pathTo head path before rest n⟩ := by
          intro step first later member comment
          unfold Site.pathTo at first
          split at first
          · cases first
            exact others later (kid_below (.document {} rest) later member) comment
          · cases first
        rw [uncommented_cons n rest kept, nodes, nodes, Site.uncommented_path,
          node_uncommented ignore outer isBlock _ output n around inside]
        refine bind_congr fun written => ?_
        rw [← uncommented_cons n before kept]
        exact nodes_uncommented ignore outer isBlock head path (n :: before) written rest others

end

theorem root_uncommented (ignore : ∀ rule ∈ table.inOrder, rule.IgnoresComments) (n : Marked) (known : n.CommentsKnown) :
    root table o (Site.uncommented ⟨n, []⟩) = root table o ⟨n, []⟩ := by
  have alone (n : Marked) (known : n.CommentsKnown) :
      node table o [] true [] [] (prepare o n.uncommented) = node table o [] true [] [] (prepare o n) := by
    rw [uncommented_prepare]
    exact node_uncommented table o ignore [] true [] [] _ (fun _ none => by cases none) ((prepare_known o n).mpr known)
  cases n with
  | text | comment | element => exact alone _ known
  | document m ks =>
      have top := uncommented_root_of ⟨.document m ks, []⟩
      have below := (prepare_known o _).mpr (root_known ⟨.document m ks, []⟩ known)
      have prepared := uncommented_prepare o (rootOf ⟨.document m ks, []⟩).node
      unfold root
      rw [top]
      simp only [Site.prepared, Site.uncommented, Node.uncommented]
      rw [prepared]
      generalize prepare o (rootOf ⟨.document m ks, []⟩).node = n at below
      generalize (rootOf ⟨.document m ks, []⟩).path = path
      cases n with
      | text | comment => simp only [Node.uncommented, node]
      | element m t a ks => exact nodes_uncommented table o ignore [] true (.element m t a) path [] [] ks below
      | document m ks => exact nodes_uncommented table o ignore [] true (.document m) path [] [] ks below

end

theorem comments_invisible (o : Options) (tree : Tree) :
    site {} o (Site.ofTree tree.uncommented) = site {} o (Site.ofTree tree) := by
  have bare : Site.ofTree tree.uncommented = Site.uncommented (Site.ofTree tree) := by
    rw [Site.ofTree, uncommented_marks]
    rfl
  have kind : (Site.ofTree tree).uncommented.node.kind = (Site.ofTree tree).node.kind := uncommented_kind _
  have same := root_uncommented {} o default_table_ignores _ (of_tree_known tree)
  rw [bare, site, site, kind]
  exact bind_congr fun _ => congrArg (· >>= finish) same

end Render

end Downmark
