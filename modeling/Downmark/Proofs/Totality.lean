import Downmark.Proofs.EndlessLists
import Downmark.Proofs.Flaws
import Downmark.Proofs.Integers
import Downmark.Proofs.ReliableRules
import Downmark.Proofs.RenderedTop
/-!
When rendering fails. With rules that never fail there are only two ways: the draft has a flaw, or a numbered
list is entered whose last number has more digits than are ever written. Main statement: with any of the bundled
plugins applied to the default table, a draft that cannot be a root or has a flaw is refused with the first flaw,
one with such a list is refused for its number, and for all others a text is written.
-/

set_option autoImplicit false

namespace Downmark

/-- Whether the rule of a site asks for its children. -/
def RuleTable.asksBelow (table : RuleTable) (o : Options) (site : Site) : Bool :=
  match table.find site o site.node.mark.blank with
  | .ok rule => rule.rendersChildren
  | .error _ => false

theorem asks_found (table : RuleTable) (o : Options) (m : Mark) (t : String) (a : Attrs) (ks : List Marked)
    (path : List Step) (rule : Rule) (found : table.find ⟨.element m t a ks, path⟩ o m.blank = .ok rule) :
    table.asksBelow o ⟨.element m t a ks, path⟩ = rule.rendersChildren := by
  have found : table.find ⟨.element m t a ks, path⟩ o (Node.element m t a ks).mark.blank = .ok rule := found
  rw [RuleTable.asksBelow, found]

namespace Render

open Node

section

variable (table : RuleTable) (o : Options)

mutual

/-- The elements that are entered when a node is rendered, with their surroundings: the node and what is below it, but
nothing below an element whose rule does not ask for its children. -/
def visits (path : List Step) : Marked → List Site
  | .text _ _ => []
  | .comment _ _ => []
  | .document _ _ => []
  | .element m t a ks =>
    ⟨.element m t a ks, path⟩ ::
      if table.asksBelow o ⟨.element m t a ks, path⟩ then visitsAll (.element m t a) path [] ks else []

def visitsAll (head : Head) (path : List Step) (before : List Marked) : List Marked → List Site
  | [] => []
  | n :: rest => visits (Site.pathTo head path before rest n) n ++ visitsAll head path (n :: before) rest

end

/-- The elements that are entered when a root is rendered. -/
def visited (site : Site) : List Site :=
  let top := (rootOf site).prepared o
  match site.node, top.node with
  | .document .., .element m t a ks => visitsAll table o (.element m t a) top.path [] ks
  | .document .., .document m ks => visitsAll table o (.document m) top.path [] ks
  | _, n => visits table o top.path n

end

/-- Whether work fails in every state for a number with too many digits, or else succeeds in every state and leaves
the indentation as it was. -/
structure Decided {α : Type} (refused : Prop) (work : Rendering α) : Prop where
  refuses : refused → ∀ s, ∃ t, work s = .error .tooManyDigits t
  succeeds : ¬ refused → ∀ s, ∃ a t, work s = .ok a t ∧ t.indents = s.indents

section

variable {α β : Type} {first : Rendering α} {next : α → Rendering β} {p q : Prop}

theorem decided_same (outcome : Decided p first) (same : p ↔ q) : Decided q first :=
  ⟨fun refused => outcome.refuses (same.mpr refused),
    fun none => outcome.succeeds fun refused => none (same.mp refused)⟩

theorem decided_pure (a : α) : Decided False (pure a : Rendering α) := ⟨False.elim, fun _ s => ⟨a, s, rfl, rfl⟩⟩

theorem decided_works (works : Works first) (keeps : Keeps first) : Decided False first := by
  refine ⟨False.elim, fun _ s => ?_⟩
  obtain ⟨a, t, worked⟩ := works s
  exact ⟨a, t, worked, congrArg Counters.indents (keeps s a t worked)⟩

theorem decided_bind (before : Decided p first) (after : ∀ a, Decided q (next a)) :
    Decided (p ∨ q) (first >>= next) := by
  by_cases here : p
  · refine ⟨fun _ s => ?_, fun none => absurd (.inl here) none⟩
    obtain ⟨t, failed⟩ := before.refuses here s
    exact ⟨t, bind_of_error first next s t _ failed⟩
  · refine ⟨fun refused s => ?_, fun none s => ?_⟩
    · obtain ⟨a, t, worked, -⟩ := before.succeeds here s
      rw [bind_of_ok first next s t a worked]
      exact (after a).refuses (refused.resolve_left here) t
    · obtain ⟨a, t, worked, same⟩ := before.succeeds here s
      obtain ⟨b, u, went, kept⟩ := (after a).succeeds (fun later => none (.inr later)) t
      exact ⟨b, u, by rw [bind_of_ok first next s t a worked, went], kept.trans same⟩

theorem decided_then (before : Decided p first) (after : ∀ a, Decided False (next a)) :
    Decided p (first >>= next) := decided_same (decided_bind before after) (by simp)

theorem decided_get {next : State → Rendering β} (after : ∀ s, Decided p (next s)) : Decided p (get >>= next) :=
  ⟨fun refused s => (after s).refuses refused s, fun none s => (after s).succeeds none s⟩

end

-- Leaving only looks at the indentation, which is what entering has made of it.
theorem leave_indents (o : Options) (site : Site) (s t : State) (same : t.indents = (opened o site s).indents) :
    ∃ u, leave o site t = .ok () u ∧ u.indents = s.indents := by
  rcases counted_tag site.tag with tag | tag | tag | tag | tag | tag | ⟨ul, ol, li, quote, code, pre⟩
  · simp [leave, opened, tag, modify_ok] at same ⊢
    exact same
  · simp [leave, opened, tag, modify_ok] at same ⊢
    exact same
  · simp only [opened, tag] at same
    simp only [leave, tag]
    exact ⟨_, outdent_ok t _ _ same, rfl⟩
  · simp only [opened, tag] at same
    simp only [leave, tag]
    exact ⟨_, outdent_ok t _ _ same, rfl⟩
  · simp [leave, opened, tag, modify_ok] at same ⊢
    exact same
  · cases asked : o.preformattedCode with
    | true =>
        simp [leave, opened, tag, asked, modify_ok] at same ⊢
        exact same
    | false =>
        simp [opened, tag, asked] at same
        simp [leave, tag, asked]
        exact ⟨t, rfl, same⟩
  · simp [opened] at same
    simp [leave]
    exact ⟨t, rfl, same⟩

theorem decided_inside {α : Type} (o : Options) (site : Site) (work : Rendering α) (p : Prop)
    (inner : Decided p work) : Decided (needsEndlessMarker site = true ∨ p) (do
      enter o site
      let a ← work
      leave o site
      pure a) := by
  by_cases endless : needsEndlessMarker site = true
  · refine ⟨fun _ s => ⟨s, bind_of_error _ _ s s _ (by rw [enter_eq, if_pos endless])⟩, fun none => ?_⟩
    exact absurd (.inl endless) none
  · have entering (s : State) : enter o site s = .ok () (opened o site s) := by rw [enter_eq, if_neg endless]
    refine ⟨fun refused s => ?_, fun none s => ?_⟩
    · obtain ⟨t, failed⟩ := inner.refuses (refused.resolve_left endless) (opened o site s)
      exact ⟨t, by rw [bind_of_ok _ _ s _ () (entering s), bind_of_error _ _ _ t _ failed]⟩
    · obtain ⟨a, t, worked, same⟩ := inner.succeeds (fun later => none (.inr later)) (opened o site s)
      obtain ⟨u, left, back⟩ := leave_indents o site s t same
      refine ⟨a, u, ?_, back⟩
      rw [bind_of_ok _ _ s _ () (entering s), bind_of_ok _ _ _ t a worked, bind_of_ok _ _ t u () left]
      rfl

theorem replace_decided (rule : Rule) (site : Site) (o : Options) (content preceding : Chars)
    (works : ∀ content, Works (rule.replacement content site o)) (keeps : KeepsCounters rule.replacement) :
    Decided False (replace rule site o content preceding) := by
  unfold replace
  split
  · exact decided_works (works content) (keeps content site o)
  · exact decided_get fun s => decided_then (decided_works (works _) (keeps _ site o)) fun _ => decided_pure _

theorem element_decided (table : RuleTable) (reliable : ∀ rule ∈ table.inOrder, rule.Reliable) (o : Options)
    (outer : List Open) (isBlock : Bool) (path : List Step) (output : Chars) (m : Mark) (t : String) (a : Attrs)
    (ks : List Marked)
    (below : ∀ outer isBlock, Decided (∃ site ∈ visitsAll table o (.element m t a) path [] ks,
      needsEndlessMarker site = true) (nodes table o outer isBlock (.element m t a) path [] [] ks)) :
    Decided (∃ site ∈ visits table o path (.element m t a ks), needsEndlessMarker site = true)
      (elementText table o outer isBlock path output m t a ks) := by
  obtain ⟨rule, found, keeps, works⟩ := find_reliable table reliable ⟨.element m t a ks, path⟩ o m.blank
  rw [element_found table o outer isBlock path output m t a ks rule found, visits,
    asks_found table o m t a ks path rule found]
  simp only [List.mem_cons, or_and_right, exists_or, exists_eq_left]
  refine decided_inside o _ _ _ (decided_then ?_ fun content => replace_decided rule _ o content output works keeps)
  unfold contentText
  split
  · exact below _ _
  · exact decided_same (decided_pure []) (by simp)

mutual

theorem node_decided (table : RuleTable) (reliable : ∀ rule ∈ table.inOrder, rule.Reliable) (o : Options)
    (outer : List Open) (isBlock : Bool) (path : List Step) (output : Chars) (n : Marked) :
    Decided (∃ site ∈ visits table o path n, needsEndlessMarker site = true)
      (node table o outer isBlock path output n) := by
  cases n with
  | text m data =>
      rw [node, visits]
      exact decided_same (decided_get fun _ => decided_pure _) (by simp)
  | comment | document =>
      rw [node, visits]
      exact decided_same (decided_pure output) (by simp)
  | element m t a ks =>
      rw [node_element]
      refine decided_then (element_decided table reliable o outer isBlock path output m t a ks ?_) fun _ =>
        decided_pure _
      exact fun outer isBlock => nodes_decided table reliable o outer isBlock _ path [] [] ks

theorem nodes_decided (table : RuleTable) (reliable : ∀ rule ∈ table.inOrder, rule.Reliable) (o : Options)
    (outer : List Open) (isBlock : Bool) (head : Head) (path : List Step) (before : List Marked) (output : Chars)
    (ks : List Marked) :
    Decided (∃ site ∈ visitsAll table o head path before ks, needsEndlessMarker site = true)
      (nodes table o outer isBlock head path before output ks) := by
  cases ks with
  | nil =>
      rw [nodes, visitsAll]
      exact decided_same (decided_pure output) (by simp)
  | cons n rest =>
      rw [nodes, visitsAll]
      refine decided_same (decided_bind (node_decided table reliable o outer isBlock _ output n) fun output =>
        nodes_decided table reliable o outer isBlock head path (n :: before) output rest) ?_
      simp only [List.mem_append, or_and_right, exists_or]

end

theorem root_decided (table : RuleTable) (reliable : ∀ rule ∈ table.inOrder, rule.Reliable) (o : Options)
    (at_ : Site) : Decided (∃ site ∈ visited table o at_, needsEndlessMarker site = true) (root table o at_) := by
  obtain ⟨n, around⟩ := at_
  unfold root visited
  generalize (rootOf ⟨n, around⟩).prepared o = top
  obtain ⟨below, path⟩ := top
  cases n with
  | document m ks =>
      cases below with
      | document | element => exact nodes_decided table reliable o [] true _ path [] [] _
      | text | comment => exact node_decided table reliable o [] true path [] _
  | text | comment | element => exact node_decided table reliable o [] true path [] below

theorem finish_decided (output : Chars) : Decided False (finish output) := by
  refine ⟨False.elim, fun _ s => ?_⟩
  let text := Text.trimEnd Text.isBlank (Text.trimStart isLineStart output)
  let definitions := s.references.flush.1
  by_cases empty : s.references.isEmpty = true
  · refine ⟨text, s, ?_, rfl⟩
    change (if s.references.isEmpty = true then _ else _ : Rendering Chars) s = _
    rw [if_pos empty]
    rfl
  · let whole := if text.isEmpty then definitions else text ++ '\n' :: '\n' :: definitions
    refine ⟨whole, { s with references := s.references.flush.2 }, ?_, rfl⟩
    change (if s.references.isEmpty = true then _ else _ : Rendering Chars) s = _
    rw [if_neg empty]
    rfl

theorem site_decided (table : RuleTable) (reliable : ∀ rule ∈ table.inOrder, rule.Reliable) (o : Options)
    (at_ : Site) : Decided (∃ site ∈ visited table o at_, needsEndlessMarker site = true) (site table o at_) :=
  decided_same (decided_bind (p := False) (decided_works (fun _ => ⟨(), _, rfl⟩) (note_keeps _)) fun _ =>
    decided_then (root_decided table reliable o at_) finish_decided) (by simp)

theorem endless_list_marker (site : Site) (endless : site.node.isEndlessList = true) :
    needsEndlessMarker site = true := by
  obtain ⟨n, path⟩ := site
  cases n with
  | element m t a ks =>
      obtain ⟨named, long⟩ := (Bool.and_eq_true _ _).mp endless
      have tag : t = "ol" := eq_of_beq named
      subst tag
      exact long
  | text | comment | document => cases endless

mutual

-- An item without a marker of its own stands in a list that was entered before it.
theorem visits_endless (table : RuleTable) (o : Options) (path : List Step) (n : Marked) :
    (∃ site ∈ visits table o path n, needsEndlessMarker site = true) →
      (∃ site ∈ visits table o path n, site.node.isEndlessList = true) ∨
        ListMarker.isEndlessAround ⟨n, path⟩ = true := by
  rintro ⟨site, member, endless⟩
  cases n with
  | text | comment | document => cases member
  | element m t a ks =>
      rw [visits] at member ⊢
      rcases List.mem_cons.mp member with rfl | below
      · exact (endless_marker _ endless).imp_left fun long => ⟨_, List.mem_cons_self, long⟩
      · left
        split at below
        · rename_i asks
          rw [if_pos asks]
          rcases visits_all_endless table o _ path [] ks ⟨site, below, endless⟩ with ⟨list, there, long⟩ | here
          · exact ⟨list, List.mem_cons_of_mem _ there, long⟩
          · exact ⟨_, List.mem_cons_self, here⟩
        · cases below

theorem visits_all_endless (table : RuleTable) (o : Options) (head : Head) (path : List Step)
    (before ks : List Marked) : (∃ site ∈ visitsAll table o head path before ks, needsEndlessMarker site = true) →
      (∃ site ∈ visitsAll table o head path before ks, site.node.isEndlessList = true) ∨
        (head.close (before.reverse ++ ks)).isEndlessList = true := by
  rintro ⟨site, member, endless⟩
  cases ks with
  | nil => cases member
  | cons n rest =>
      rw [visitsAll] at member ⊢
      rcases List.mem_append.mp member with here | later
      · rcases visits_endless table o _ n ⟨site, here, endless⟩ with ⟨list, there, long⟩ | around
        · exact .inl ⟨list, List.mem_append_left _ there, long⟩
        · unfold Site.pathTo at around
          split at around
          · exact .inr (by rwa [around_closed] at around)
          · cases around
      · rcases visits_all_endless table o head path (n :: before) rest ⟨site, later, endless⟩ with
          ⟨list, there, long⟩ | around
        · exact .inl ⟨list, List.mem_append_right _ there, long⟩
        · rw [List.reverse_cons, List.append_assoc] at around
          exact .inr around

end

-- The children of a document that are rendered are its own or those of its body.
theorem root_no_list (o : Options) (m : Mark) (ks : List Marked) (path : List Step) :
    ((rootOf ⟨.document m ks, path⟩).prepared o).node.isNamed "ol" = false := by
  have kept (n : Marked) : (prepare o n).isNamed "ol" = n.isNamed "ol" := by
    rw [← map_marks_named (fun _ => ()), ← map_marks_named (fun _ => ()) "ol" n]
    exact congrArg (isNamed "ol") (prepare_bare o n)
  rw [Site.prepared, kept]
  change ((Site.find? "body" ⟨.document m ks, path⟩).getD _).node.isNamed "ol" = false
  cases found : Site.find? "body" ⟨.document m ks, path⟩ with
  | none => rfl
  | some body =>
      have named : body.node.isNamed "body" = true := by
        unfold Site.find? at found
        simpa using List.find?_some found
      change body.node.isNamed "ol" = false
      cases same : body.node with
      | element m t a ks =>
          rw [same] at named
          have tag : t = "body" := eq_of_beq named
          rw [tag]
          rfl
      | text | comment | document => rfl

theorem visited_endless (table : RuleTable) (o : Options) (n : Marked)
    (needed : ∃ site ∈ visited table o ⟨n, []⟩, needsEndlessMarker site = true) :
    ∃ site ∈ visited table o ⟨n, []⟩, site.node.isEndlessList = true := by
  unfold visited at needed ⊢
  cases n with
  | text | comment | element =>
      exact (visits_endless table o [] _ needed).resolve_right Bool.false_ne_true
  | document m ks =>
      have unlisted := root_no_list o m ks []
      generalize (rootOf ⟨.document m ks, []⟩).prepared o = top at needed unlisted ⊢
      obtain ⟨below, path⟩ := top
      cases below with
      | text | comment =>
          obtain ⟨site, member, -⟩ := needed
          cases member
      | document m' ks' =>
          refine (visits_all_endless table o _ path [] ks' needed).resolve_right ?_
          exact Bool.false_ne_true
      | element m' t a ks' =>
          refine (visits_all_endless table o _ path [] ks' needed).resolve_right fun long => ?_
          have named := ((Bool.and_eq_true _ _).mp long).1
          cases (show isNamed "ol" (.element m' t a ks') = false from unlisted).symm.trans named

mutual

theorem visits_within (table : RuleTable) (o : Options) (path : List Step) (n : Marked) :
    ∀ site ∈ visits table o path n, site ∈ Site.within path n := by
  intro site member
  cases n with
  | text | comment | document => cases member
  | element m t a ks =>
      rw [visits] at member
      rcases List.mem_cons.mp member with rfl | below
      · exact List.mem_cons_self
      · split at below
        · exact List.mem_cons_of_mem _ (visits_all_among table o _ path [] ks site below)
        · cases below

theorem visits_all_among (table : RuleTable) (o : Options) (head : Head) (path : List Step)
    (before ks : List Marked) :
    ∀ site ∈ visitsAll table o head path before ks, site ∈ Site.among head path before ks := by
  intro site member
  cases ks with
  | nil => cases member
  | cons n rest =>
      rcases List.mem_append.mp member with here | later
      · exact List.mem_append_left _ (visits_within table o _ n site here)
      · exact List.mem_append_right _ (visits_all_among table o head path (n :: before) rest site later)

end

theorem visited_below (table : RuleTable) (o : Options) (tree : Tree) : ∀ site ∈ visited table o (Site.ofTree tree),
    site.node ∈ ((rootOf (Site.ofTree tree)).prepared o).node ::
      ((rootOf (Site.ofTree tree)).prepared o).node.descendants := by
  intro site member
  have below : site ∈ Site.within ((rootOf (Site.ofTree tree)).prepared o).path
      ((rootOf (Site.ofTree tree)).prepared o).node := by
    unfold visited at member
    cases tree with
    | text | comment | element => exact visits_within table o _ _ site member
    | document m ks =>
        generalize (rootOf (Site.ofTree (.document m ks))).prepared o = top at member ⊢
        obtain ⟨n, path⟩ := top
        cases n with
        | text | comment => cases member
        | document | element => exact List.mem_cons_of_mem _ (visits_all_among table o _ path [] _ site member)
  have node := List.mem_map_of_mem (f := Site.node) below
  rwa [Site.within_nodes] at node

theorem visited_inside (table : RuleTable) (o : Options) (tree : Tree)
    (list : ∃ site ∈ visited table o (Site.ofTree tree), site.node.isEndlessList = true) : tree.HasEndlessList := by
  obtain ⟨site, member, long⟩ := list
  have inside : (prepare o (rootOf (Site.ofTree tree)).node).HasEndlessList :=
    ⟨site.node, visited_below table o tree site member, long⟩
  have whole := endless_inside _ _ (root_inside (Site.ofTree tree)) ((prepare_endless o _).mp inside)
  have marked : (tree.mapMarks fun _ => ({} : Mark)).HasEndlessList := whole
  rwa [← bare_endless, bare_marked] at marked

/-- What becomes of a draft: its first flaw is reported, or a list that cannot be numbered, or a text is written. -/
inductive Fate (table : RuleTable) (o : Options) (d : Draft) : EStateM.Result Failure State Chars → Prop where
  | unrenderable (s : State) (other : isRoot d = false) :
    Fate table o d (.error (.malformed (.unrenderable d.kind)) s)
  | flawed (flaw : Malformed) (s : State) (root : isRoot d = true) (first : d.firstFlaw? = some flaw) :
    Fate table o d (.error (.malformed flaw) s)
  | endless (tree : Tree) (s : State) (root : isRoot d = true) (sound : d.firstFlaw? = none)
    (read : d.check = .ok tree) (list : ∃ site ∈ visited table o (Site.ofTree tree), site.node.isEndlessList = true) :
    Fate table o d (.error .tooManyDigits s)
  | written (tree : Tree) (text : Chars) (s : State) (root : isRoot d = true) (sound : d.firstFlaw? = none)
    (read : d.check = .ok tree)
    (short : ∀ site ∈ visited table o (Site.ofTree tree), site.node.isEndlessList = false) :
    Fate table o d (.ok text s)

theorem draft_fate (table : RuleTable) (reliable : ∀ rule ∈ table.inOrder, rule.Reliable) (o : Options) (d : Draft)
    (s : State) : Fate table o d (draft table o d s) := by
  unfold draft
  cases root : isRoot d with
  | false => exact .unrenderable s root
  | true =>
      have checked := d.check_gives
      cases first : d.firstFlaw? with
      | some flaw =>
          rw [first] at checked
          have failed : d.check = .error flaw := checked
          rw [if_pos rfl, failed]
          exact .flawed flaw s root first
      | none =>
          rw [first] at checked
          obtain ⟨tree, read⟩ := checked
          rw [if_pos rfl, read]
          have outcome := site_decided table reliable o (Site.ofTree tree)
          by_cases list : ∃ site ∈ visited table o (Site.ofTree tree), site.node.isEndlessList = true
          · have needed : ∃ site ∈ visited table o (Site.ofTree tree), needsEndlessMarker site = true := by
              obtain ⟨site, member, long⟩ := list
              exact ⟨site, member, endless_list_marker site long⟩
            obtain ⟨t, refused⟩ := outcome.refuses needed s
            dsimp only
            rw [refused]
            exact .endless tree t root first read list
          · obtain ⟨text, t, written, -⟩ := outcome.succeeds (fun needed => list (visited_endless table o _ needed)) s
            dsimp only
            rw [written]
            refine .written tree text t root first read fun site member => ?_
            exact Bool.eq_false_iff.mpr fun long => list ⟨site, member, long⟩

theorem rendering_total (plugins : List Plugin) (known : ∀ p ∈ plugins, p ∈ Gfm.bundled) :
    ∃ w, plugins.forM Plugin.apply {} = .ok () w ∧
      ∀ (o : Options) (d : Draft) (s : State), Fate w.table o d (draft w.table o d s) := by
  obtain ⟨w, applied, reliable⟩ := Gfm.plugins_safe plugins known {} Gfm.default_reliable
  exact ⟨w, applied, draft_fate w.table reliable.rules⟩

/-- A task in a list, and a table that comes before it. -/
def tabledTask : Draft :=
  .document [
    .element (.str "table") [] [.element (.str "tr") [] [.element (.str "th") [] [.text (.str "a")]]],
    .element (.str "UL") [] [.element (.str "li") []
      [.element (.str "input") [("type", "checkbox".toList)] [], .text (.str "b")]]]

theorem tabled_task_written : (∀ p ∈ Gfm.bundled, p ∈ Gfm.bundled) ∧
    ∃ w, Gfm.bundled.forM Plugin.apply {} = .ok () w ∧ ∃ text s, draft w.table {} tabledTask {} = .ok text s := by
  have known : ∀ p ∈ Gfm.bundled, p ∈ Gfm.bundled := fun _ member => member
  obtain ⟨w, applied, fates⟩ := rendering_total Gfm.bundled known
  refine ⟨known, w, applied, ?_⟩
  have fate := fates {} tabledTask {}
  generalize draft _ _ _ _ = result at fate
  cases fate with
  | unrenderable s other => cases other
  | flawed flaw s root first => cases first
  | endless tree s root sound read list =>
      have finite : ¬ tree.HasEndlessList := by
        cases read
        unfold HasEndlessList
        decide +kernel
      exact absurd (visited_inside w.table {} tree list) finite
  | written tree text s => exact ⟨text, s, rfl⟩

theorem first_visited (table : RuleTable) (o : Options) (m : Mark) (t : String) (a : Attrs) (ks : List Marked) :
    ⟨prepare o (.element m t a ks), []⟩ ∈ visited table o ⟨.element m t a ks, []⟩ := by
  obtain ⟨m', ks', shape, -⟩ := bare_element_shape _ _ _ _ (prepare_bare o (.element m t a ks))
  change _ ∈ visits table o [] (prepare o (.element m t a ks))
  rw [shape]
  exact List.mem_cons_self

theorem prepare_list (o : Options) (n : Marked) : (prepare o n).isEndlessList = n.isEndlessList := by
  rw [← map_marks_endless (fun _ => ()) (prepare o n), ← map_marks_endless (fun _ => ()) n]
  exact congrArg isEndlessList (prepare_bare o n)

-- The second item would have a number with one digit too many.
def longPair : Draft :=
  .element (.str "ol") [("start", List.replicate Text.maxIntegerDigits '9')]
    [.element (.str "li") [] [.text (.str "a")], .element (.str "li") [] [.text (.str "b")]]

theorem long_pair_unwritten : ¬ ∀ (o : Options) (d : Draft) (s : State), isRoot d = true → d.firstFlaw? = none →
    ∃ text t, draft {} o d s = .ok text t := by
  intro always
  obtain ⟨text, t, written⟩ := always {} longPair {} rfl rfl
  have fate := draft_fate {} default_table_reliable {} longPair {}
  rw [written] at fate
  cases fate with
  | written tree text s root sound read short =>
      cases read
      have finite := short _ (first_visited {} {} _ _ _ _)
      rw [prepare_list] at finite
      have named (t : String) (ks : List Marked) (list : (t == "ol") = true) (two : ListMarker.countItems ks = 2) :
          isEndlessList (.element {} t [("start", List.replicate Text.maxIntegerDigits '9')] ks) = true := by
        change (t == "ol" && ListMarker.isEndless [("start", List.replicate Text.maxIntegerDigits '9')] ks) = true
        rw [list, ListMarker.two_from_nines ks two]
        rfl
      exact Bool.false_ne_true (finite.symm.trans (named _ _ rfl rfl))

end Render

end Downmark
