import Downmark.Proofs.EndlessLists
import Downmark.Proofs.Integers
import Downmark.Proofs.NumberedOutput
import Downmark.Proofs.RenderedTop
/-!
Documents with numbered targets. Main statement: the definitions after a text number what its links and images
lead to, from one on without a gap and in the order in which the elements are finished; each link and image
has the number of its own target, and all of them stand in the text. Nothing is written only if a list needs
a number with more digits than are ever written.
-/

set_option autoImplicit false

namespace Downmark.Render

open Node

def renderedTargets (tree : Tree) : List Target := targetsOf (renderedBelow tree)

-- The text of a tree whose links and images have these numbers.
def numberedText (number : Target → Chars) (o : Options) (tree : Tree) : Except Failure Chars :=
  (answer (root (numberedTable number) o (Site.ofTree tree)) {}).map trimmed

-- What is written after a text that refers to definitions.
def definitionBlock (links : List Reference.Link) : Chars :=
  if links.isEmpty then [] else '\n' :: '\n' :: Text.unlines (links.map Reference.Link.toMarkdown)

theorem finish_defined (output : Chars) (s : State) (written : s.references.toList ≠ [] → trimmed output ≠ []) :
    ∃ t, finish output s = .ok (trimmed output ++ definitionBlock s.references.toList) t := by
  have empty : s.references.toList.isEmpty = s.references.isEmpty := by simp [Reference.Collector.toList,
    Reference.Collector.isEmpty]
  have listed : s.references.toMarkdown = Text.unlines (s.references.toList.map Reference.Link.toMarkdown) := by
    rw [Reference.Collector.toMarkdown, Reference.Collector.toList, List.map_map]
    rfl
  rw [definitionBlock, empty]
  cases none : s.references.isEmpty with
  | true =>
      refine ⟨s, ?_⟩
      change (if s.references.isEmpty = true then pure (trimmed output) else _ : Rendering Chars) s = _
      rw [none, if_pos rfl, if_pos rfl, List.append_nil]
      rfl
  | false =>
      have some : (trimmed output).isEmpty = false := by
        simpa using written (by simpa [none] using empty)
      refine ⟨{ s with references := {} }, ?_⟩
      change (if s.references.isEmpty = true then _ else _ : Rendering Chars) s = _
      rw [none, if_neg Bool.false_ne_true, if_neg Bool.false_ne_true, ← listed]
      change EStateM.Result.ok (if (trimmed output).isEmpty = true then _ else
        trimmed output ++ '\n' :: '\n' :: s.references.toMarkdown) _ = _
      rw [some, if_neg Bool.false_ne_true]

section

variable (ts : List Target) (o : Options) (referenced : o.linkStyle = .referenced) (full : o.labelStyle = .full)

include referenced full

theorem children_tracks (n : Marked) (head : Head) (path : List Step) (ks : List Marked)
    (shape : prepare o n = head.close ks) (empty : n.VoidsEmpty) :
    Tracks ts (nodes {} o [] true head path [] [] ks)
      (nodes (numberedTable (numberOf ts)) o [] true head path [] [] ks) (targetsOf ks)
      (Carries (suffixes ts (targetsOf ks))) n.HasEndlessList := by
  have flagged := prepared_flags o n
  have voids := (prepare_voids o n).mpr empty
  rw [shape] at flagged voids
  have below : FlaggedAll ks ∧ ∀ below ∈ forest ks, below.isVoid = true → below.kids = [] := by
    cases head with
    | element => exact ⟨flagged.2, fun below member => voids below (List.mem_cons_of_mem _ member)⟩
    | document => exact ⟨flagged, fun below member => voids below (List.mem_cons_of_mem _ member)⟩
  have tracks := nodes_tracks ts o referenced full [] true head path [] [] ks below.1 below.2 [] trivial
  refine tracks_weaken tracks (fun _ fine => fine) fun ⟨site, member, long⟩ => ?_
  rw [← prepare_endless o, shape]
  exact endless_among head path [] ks site member long

theorem alone_tracks (n : Marked) (empty : n.VoidsEmpty) :
    Tracks ts (node {} o [] true [] [] (prepare o n)) (node (numberedTable (numberOf ts)) o [] true [] [] (prepare o n))
      n.targets (Carries (suffixes ts n.targets)) n.HasEndlessList := by
  have voids := (prepare_voids o n).mpr empty
  have tracks := node_tracks ts o referenced full [] true [] [] (prepare o n) (prepared_flags o n) voids [] trivial
  rw [prepare_targets] at tracks
  refine tracks_weaken tracks (fun _ fine => fine) fun ⟨site, member, long⟩ => ?_
  rcases endless_within [] (prepare o n) site member long with inside | outside
  · exact (prepare_endless o n).mp inside
  · cases outside

theorem root_tracks (tree : Tree) (voids : tree.VoidsEmpty) :
    Tracks ts (root {} o (Site.ofTree tree)) (root (numberedTable (numberOf ts)) o (Site.ofTree tree))
      (renderedTargets tree) (Carries (suffixes ts (renderedTargets tree))) tree.HasEndlessList := by
  have alone (single : renderedBelow tree = [tree]) :
      Tracks ts (node {} o [] true [] [] (prepare o (unmark tree)))
        (node (numberedTable (numberOf ts)) o [] true [] [] (prepare o (unmark tree)))
        (renderedTargets tree) (Carries (suffixes ts (renderedTargets tree))) tree.HasEndlessList := by
    have bared : bare (unmark tree) = tree := bare_marked _ tree
    have same : renderedTargets tree = (unmark tree).targets := by
      rw [renderedTargets, single, ← bare_targets (unmark tree), bared, targetsOf, targetsOf, List.append_nil]
    have long := bare_endless (unmark tree)
    rw [bared] at long
    rw [same, long]
    exact alone_tracks ts o referenced full (unmark tree) ((map_marks_voids _ tree).mpr voids)
  cases tree with
  | text | comment | element => exact alone rfl
  | document m ks =>
      obtain ⟨top, head, path, ks', rendered⟩ := document_top o m ks
      have targets : targetsOf ks' = renderedTargets (.document m ks) := by
        rw [renderedTargets, ← rendered.below, bare_all_targets]
      have empty : (unmark top).VoidsEmpty := (map_marks_voids _ top).mpr (voids_inside _ top voids rendered.inside)
      rw [rendered.rendered, rendered.rendered, ← targets]
      refine tracks_weaken (children_tracks ts o referenced full _ head path ks' rendered.shape empty)
        (fun _ fine => fine) fun long => ?_
      rw [← bare_endless, unmark, bare_marked] at long
      exact endless_inside _ top rendered.inside long

omit referenced full in
theorem finish_numbered (found : List Target) (output : Chars) (s : State) (known : s.references = .ofTargets found)
    (carries : Carries (suffixes ts found) output) :
    ∃ t, finish output s = .ok (trimmed output ++ definitionBlock (definitions found)) t := by
  have kept := carries_trimmed _ (suffixes_compact ts found) output carries
  have links : s.references.toList = definitions found := by
    rw [known, Reference.Collector.toList, Reference.Collector.ofTargets, List.map_map]
    exact List.map_id _
  rw [← links]
  refine finish_defined output s fun some none => some ?_
  have none : Text.trimEnd Text.isBlank (Text.trimStart isLineStart output) = [] := none
  rw [none] at kept
  have nothing : found = [] := List.map_eq_nil_iff.mp (carries_nil _ (suffixes_compact ts found) kept)
  rw [links, nothing]
  rfl

theorem targets_numbered (tree : Tree) (voids : tree.VoidsEmpty) :
    Numbers (renderedTargets tree) (definitions (renderedTargets tree)) ∧
    ((∃ text, numberedText (numberOf (renderedTargets tree)) o tree = .ok text ∧
        Carries ((renderedTargets tree).map (suffix (numberOf (renderedTargets tree)))) text ∧
        conversion o tree = .ok (text ++ definitionBlock (definitions (renderedTargets tree)))) ∨
      conversion o tree = .error .tooManyDigits ∧ tree.HasEndlessList) := by
  refine ⟨definitions_number _, ?_⟩
  let found := renderedTargets tree
  have tracks := root_tracks found o referenced full tree voids [] (logged tree) {} rfl ⟨rfl, rfl⟩ (List.prefix_refl _)
  rw [List.nil_append] at tracks
  rcases tracks with ⟨output, asked, knew, carries⟩ | ⟨⟨t, -, asked, -⟩, long⟩
  · obtain ⟨t, finished⟩ :=
      finish_numbered found found output { logged tree with references := .ofTargets found } rfl carries
    refine .inl ⟨trimmed output, ?_, carries_trimmed _ (suffixes_compact found found) output carries, ?_⟩
    · rw [numberedText, answer, knew]
      rfl
    · have noted : site {} o (Site.ofTree tree) {} = (root {} o (Site.ofTree tree) >>= finish) (logged tree) := rfl
      rw [conversion, answer, noted, bind_of_ok _ _ _ _ output asked, finished]
  · exact .inr ⟨conversion_error o tree _ t asked, long⟩

end

-- The image is finished before the link that is around it, and comes up once more as the target of a link.
def linkedImages : Tree :=
  .document () [
    .element () "p" [] [.element () "a" [("href", ['x'])]
      [.text () ['b'], .element () "img" [("src", ['y']), ("alt", ['c'])] []]],
    .element () "p" [] [.element () "a" [("href", ['y'])] [.text () ['d']]]]

theorem linked_images_numbered : linkedImages.VoidsEmpty ∧
    renderedTargets linkedImages = [(['y'], none), (['x'], none), (['y'], none)] ∧
    conversion { linkStyle := .referenced, labelStyle := .full } linkedImages =
      .ok "[b![c][1]][2]\n\n[d][1]\n\n[1]: y\n[2]: x".toList := by
  have voids : linkedImages.VoidsEmpty := by
    simp [linkedImages, VoidsEmpty, descendants, forest, kids, isVoid, tag, isVoidTag, voidTags]
  have finite : ¬ linkedImages.HasEndlessList := by
    simp [linkedImages, HasEndlessList, descendants, forest, isEndlessList, isNamed]
  have found : renderedTargets linkedImages = [(['y'], none), (['x'], none), (['y'], none)] := rfl
  have knowing : numberedText (numberOf (renderedTargets linkedImages)) { linkStyle := .referenced, labelStyle := .full }
      linkedImages = .ok "[b![c][1]][2]\n\n[d][1]".toList := rfl
  rcases (targets_numbered { linkStyle := .referenced, labelStyle := .full } rfl rfl linkedImages voids).2 with
    ⟨text, written, -, converted⟩ | ⟨-, endless⟩
  · rw [knowing] at written
    cases written
    exact ⟨voids, found, converted⟩
  · exact absurd endless finite

theorem endless_refused (o : Options) (outer : List Open) (isBlock : Bool) (path : List Step) (output : Chars)
    (m : Mark) (t : String) (a : Attrs) (ks : List Marked)
    (endless : needsEndlessMarker ⟨.element m t a ks, path⟩ = true) (s : State) :
    node {} o outer isBlock path output (.element m t a ks) s = .error .tooManyDigits s := by
  obtain ⟨rule, found⟩ := rule_found o ⟨.element m t a ks, path⟩ m.blank
  have entering : enter o ⟨.element m t a ks, path⟩ s = .error .tooManyDigits s := by rw [enter_eq, if_pos endless]
  have text : elementText {} o outer isBlock path output m t a ks s = .error .tooManyDigits s := by
    rw [element_found {} o outer isBlock path output m t a ks rule found, bind_of_error _ _ s s _ entering]
  rw [node_element, bind_of_error _ _ s s _ text]

theorem endless_list_refused (o : Options) (a : Attrs) (ks rest : List Tree)
    (bodiless : Bodiless (.element () "ol" a ks :: rest)) (endless : ListMarker.isEndless a ks = true) :
    conversion o (.document () (.element () "ol" a ks :: rest)) = .error .tooManyDigits := by
  let tree : Tree := .document () (.element () "ol" a ks :: rest)
  have bared : bare (unmark tree) = tree := bare_marked _ tree
  obtain ⟨m, all, shape, same⟩ := bare_document_shape _ _ ((prepare_bare o (unmark tree)).trans bared)
  obtain ⟨first, rest', rfl, list, -⟩ := bare_cons_shape all _ _ same
  obtain ⟨m', ks', rfl, items⟩ := bare_element_shape first _ _ _ list
  have unfolded : root {} o (Site.ofTree tree) =
      nodes {} o [] true (.document m) [] [] [] (.element m' "ol" a ks' :: rest') := by
    unfold root Site.prepared
    rw [document_root _ bodiless]
    have shape : prepare o (Site.ofTree tree).node = _ := shape
    rw [shape]
    rfl
  have long : needsEndlessMarker
      ⟨.element m' "ol" a ks', Site.pathTo (.document m) [] [] rest' (.element m' "ol" a ks')⟩ = true := by
    have marked := map_marks_endless (fun _ => ()) (.element m' "ol" a ks')
    rw [← bare, list] at marked
    exact marked.symm.trans endless
  refine conversion_error o tree .tooManyDigits (logged tree) ?_
  rw [unfolded, nodes, bind_of_error _ _ _ _ _ (endless_refused o [] true _ [] m' "ol" a ks' long (logged tree))]

-- The link is in the second item, whose number has one digit too many to be written.
def longNumberedLinks : Tree :=
  .document () [.element () "ol" [("start", List.replicate Text.maxIntegerDigits '9')] [
    .element () "li" [] [.text () ['a']],
    .element () "li" [] [.element () "a" [("href", ['x'])] [.text () ['b']]]]]

theorem long_numbered_links_refused : longNumberedLinks.VoidsEmpty ∧
    renderedTargets longNumberedLinks = [(['x'], none)] ∧
    ∀ text, conversion { linkStyle := .referenced, labelStyle := .full } longNumberedLinks ≠
      .ok (text ++ definitionBlock (definitions (renderedTargets longNumberedLinks))) := by
  have voids : longNumberedLinks.VoidsEmpty := by
    simp [longNumberedLinks, VoidsEmpty, descendants, forest, kids, isVoid, tag, isVoidTag, voidTags]
  have bodiless : Bodiless longNumberedLinks.kids := by
    simp [longNumberedLinks, kids, Bodiless, forest, descendants, isNamed]
  refine ⟨voids, rfl, fun text converted => ?_⟩
  rw [longNumberedLinks, endless_list_refused _ _ _ _ bodiless (ListMarker.two_from_nines _ rfl)] at converted
  cases converted

end Downmark.Render
