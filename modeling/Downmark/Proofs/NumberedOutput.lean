import Downmark.Proofs.NumberedRules
/-!
Rendering with numbered targets. The rules ask for the numbers of what links and images lead to while elements are
finished, one after the other, and nothing that is done later loses a suffix. Main statement: a node is rendered
as by rules that know the numbers, the collector is asked for its targets in order, and all their suffixes stand
in the text.
-/

set_option autoImplicit false

namespace Downmark.Render

open Node

section

variable (ts : List Target)

section

variable (o : Options) (m : Mark) (t : String) (a : Attrs) (ks : List Marked) (path : List Step)

-- Gaps at the ends of the content are put outside of what the rule writes, and no suffix is among them.
theorem treated_replace (rule : Rule) (inner own : List Target) (treated : Treated ts o m t a ks path rule inner own)
    (content output : Chars) (carries : Carries (suffixes ts inner) content) :
    Tracks ts (replace rule ⟨.element m t a ks, path⟩ o content output)
      (replace (numberedRule (numberOf ts) rule) ⟨.element m t a ks, path⟩ o content output) own
      (Carries (suffixes ts (inner ++ own))) False := by
  unfold replace
  split
  · exact treated.tracks content carries
  · refine tracks_get fun s s' alike => ?_
    have core := carries_core _ (suffixes_compact ts inner) content carries
    have next := next_space_alike o s s' alike ⟨.element m t a ks, path⟩
    dsimp only
    rw [next]
    exact tracks_map _ (treated.tracks _ core) fun written fine => carries_around _ _ written _ fine

variable (referenced : o.linkStyle = .referenced) (full : o.labelStyle = .full)

include referenced full

theorem element_tracks (outer : List Open) (isBlock : Bool) (output : Chars)
    (flagged : m.blank = !isSolid (.element m t a ks)) (voids : isVoidTag t = true → ks = []) (endless : Prop)
    (below : Tracks ts (nodes {} o (⟨output, isBlock⟩ :: outer) (isBlockTag t) (.element m t a) path [] [] ks)
      (nodes (numberedTable (numberOf ts)) o (⟨output, isBlock⟩ :: outer) (isBlockTag t) (.element m t a) path [] [] ks)
      (targetsOf ks) (Carries (suffixes ts (targetsOf ks))) endless) :
    Tracks ts (elementText {} o outer isBlock path output m t a ks)
      (elementText (numberedTable (numberOf ts)) o outer isBlock path output m t a ks) (targets (.element m t a ks))
      (Carries (suffixes ts (targets (.element m t a ks))))
      (needsEndlessMarker ⟨.element m t a ks, path⟩ = true ∨ endless) := by
  obtain ⟨rule, found⟩ := rule_found o ⟨.element m t a ks, path⟩ m.blank
  have numbered : (numberedTable (numberOf ts)).find ⟨.element m t a ks, path⟩ o m.blank =
      .ok (numberedRule (numberOf ts) rule) := by rw [numbered_find, found]; rfl
  obtain ⟨inner, own, treated⟩ := rule_treated ts o m t a ks path referenced full voids flagged rule found
  have content : Tracks ts (contentText {} o (⟨output, isBlock⟩ :: outer) m t a path ks rule)
      (contentText (numberedTable (numberOf ts)) o (⟨output, isBlock⟩ :: outer) m t a path ks
        (numberedRule (numberOf ts) rule)) inner (Carries (suffixes ts inner)) endless := by
    have shape := treated.content
    unfold contentText
    rw [numbered_renders]
    cases renders : rule.rendersChildren with
    | true =>
        rw [renders, if_pos rfl] at shape
        rw [shape, if_pos rfl, if_pos rfl]
        exact below
    | false =>
        rw [renders, if_neg Bool.false_ne_true] at shape
        rw [shape, if_neg Bool.false_ne_true, if_neg Bool.false_ne_true]
        exact tracks_pure [] trivial
  rw [element_found {} o outer isBlock path output m t a ks rule found,
    element_found _ o outer isBlock path output m t a ks _ numbered, treated.targets]
  have whole := tracks_bind content fun content carries =>
    treated_replace ts o m t a ks path rule inner own treated content output carries
  exact tracks_weaken (tracks_inside o _ whole) (fun _ fine => fine) (by simp)

end

theorem suffixes_append (a b : List Target) : suffixes ts (a ++ b) = suffixes ts a ++ suffixes ts b := List.map_append

mutual

theorem node_tracks (o : Options) (referenced : o.linkStyle = .referenced) (full : o.labelStyle = .full)
    (outer : List Open) (isBlock : Bool) (path : List Step) (output : Chars) (n : Marked) (flagged : Flagged n)
    (voids : VoidsEmpty n) (before : List Target) (carries : Carries (suffixes ts before) output) :
    Tracks ts (node {} o outer isBlock path output n)
      (node (numberedTable (numberOf ts)) o outer isBlock path output n) (targets n)
      (Carries (suffixes ts (before ++ targets n)))
      (∃ site ∈ Site.within path n, needsEndlessMarker site = true) := by
  cases n with
  | text m data =>
      rw [targets, List.append_nil]
      refine tracks_told fun s s' alike => ?_
      have same := text_output_alike o s s' alike (⟨output, isBlock⟩ :: outer) m data
      have joined := carries_join (suffixes ts before) [] (by simpa using suffixes_compact ts before) output
        (textOutput s o (⟨output, isBlock⟩ :: outer) m data) carries trivial
      rw [List.append_nil] at joined
      refine ⟨_, rfl, ?_, joined⟩
      rw [same]
      rfl
  | comment m data | document m ks =>
      rw [targets, List.append_nil, node, node]
      exact tracks_pure output carries
  | element m t a ks =>
      have empty : isVoidTag t = true → ks = [] := voids _ List.mem_cons_self
      have kids : ∀ below ∈ forest ks, below.isVoid = true → below.kids = [] := fun below member =>
        voids below (List.mem_cons_of_mem _ member)
      have below := nodes_tracks o referenced full (⟨output, isBlock⟩ :: outer) (isBlockTag t) (.element m t a) path [] []
        ks flagged.2 kids [] trivial
      have text := element_tracks ts o m t a ks path referenced full outer isBlock output flagged.1 empty _ below
      rw [node_element, node_element]
      refine tracks_weaken (tracks_map (join output) text fun written fine => ?_) (fun _ fine => fine) ?_
      · have compact : ∀ piece ∈ suffixes ts before ++ suffixes ts (targets (.element m t a ks)), Compact piece := by
          rw [← suffixes_append]
          exact suffixes_compact ts _
        rw [suffixes_append]
        exact carries_join _ _ compact output written carries fine
      · rintro (own | ⟨site, member, long⟩)
        · exact ⟨_, List.mem_cons_self, own⟩
        · exact ⟨site, List.mem_cons_of_mem _ member, long⟩

theorem nodes_tracks (o : Options) (referenced : o.linkStyle = .referenced) (full : o.labelStyle = .full)
    (outer : List Open) (isBlock : Bool) (head : Head) (path : List Step) (passed : List Marked) (output : Chars)
    (ks : List Marked) (flagged : FlaggedAll ks)
    (voids : ∀ below ∈ forest ks, below.isVoid = true → below.kids = []) (before : List Target)
    (carries : Carries (suffixes ts before) output) :
    Tracks ts (nodes {} o outer isBlock head path passed output ks)
      (nodes (numberedTable (numberOf ts)) o outer isBlock head path passed output ks) (targetsOf ks)
      (Carries (suffixes ts (before ++ targetsOf ks)))
      (∃ site ∈ Site.among head path passed ks, needsEndlessMarker site = true) := by
  cases ks with
  | nil =>
      rw [targetsOf, List.append_nil, nodes, nodes]
      exact tracks_pure output carries
  | cons n rest =>
      have here : VoidsEmpty n := fun below member =>
        voids below (by rw [forest, ← List.cons_append]; exact List.mem_append_left _ member)
      have later : ∀ below ∈ forest rest, below.isVoid = true → below.kids = [] := fun below member =>
        voids below (List.mem_cons_of_mem _ (List.mem_append_right _ member))
      have first := node_tracks o referenced full outer isBlock (Site.pathTo head path passed rest n) output n flagged.1
        here before carries
      rw [targetsOf, nodes, nodes, ← List.append_assoc]
      refine tracks_weaken (tracks_bind first fun written fine =>
        nodes_tracks o referenced full outer isBlock head path (n :: passed) written rest flagged.2 later
          (before ++ targets n) fine) (fun _ fine => fine) ?_
      rintro (⟨site, member, long⟩ | ⟨site, member, long⟩)
      · exact ⟨site, List.mem_append_left _ member, long⟩
      · exact ⟨site, List.mem_append_right _ member, long⟩

end

end

end Downmark.Render
