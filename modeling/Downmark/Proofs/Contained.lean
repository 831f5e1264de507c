import Mathlib.Logic.Function.Iterate
import Downmark.Proofs.Composed
import Downmark.Proofs.ContainerLines
import Downmark.Proofs.Integers
/-!
Blocks in a container. What they render to there is what they render to as a document, and the container
acts on it line by line. Main statement: a quote puts a mark before every line, any number of quotes as many
marks, and the single item of a list its marker before the first line and an indentation before the others.
-/

set_option autoImplicit false

namespace Downmark.Render

-- What is asked of blocks that are put into a container, and what they are converted to without it.
structure RendersTo (o : Options) (bs : List Tree) (text : Chars) : Prop where
  alone : ∀ b ∈ bs, StandsAlone b
  solid : ∀ b ∈ bs, EndsSolid o b
  converted : conversion o (.document () bs) = .ok text
  some : text ≠ []

def quotesAround (layers : List Attrs) (bs : List Tree) : List Tree :=
  layers.foldr (fun a inner => [.element () "blockquote" a inner]) bs

theorem ordered_needs (m : Mark) (a : Attrs) (ks : List Marked) (path : List Step) :
    needsEndlessMarker ⟨.element m "ol" a ks, path⟩ = ListMarker.isEndless a ks := rfl

theorem opened_uncounted (o : Options) (site : Site) (s : State) (code : site.tag ≠ "code") (pre : site.tag ≠ "pre") :
    Alike (opened o site s) s := by
  rcases counted_tag site.tag with tag | tag | tag | tag | tag | tag | ⟨ul, ol, li, quote, coded, kept⟩
  case inr.inr.inr.inr.inl => exact absurd tag code
  case inr.inr.inr.inr.inr.inl => exact absurd tag pre
  all_goals exact ⟨by simp [opened, *], by simp [opened, *]⟩

theorem answer_inside {α : Type} (o : Options) (site : Site) (work : Rendering α) (steady : Steady work) (s : State)
    (code : site.tag ≠ "code") (pre : site.tag ≠ "pre") (writable : needsEndlessMarker site = false) :
    answer (do
      enter o site
      let a ← work
      leave o site
      pure a) s = answer work s := by
  have entering : enter o site s = .ok () (opened o site s) := by rw [enter_eq, if_neg (by simp [writable])]
  rw [answer_alike work steady s _
    ⟨(opened_uncounted o site s code pre).1.symm, (opened_uncounted o site s code pre).2.symm⟩]
  unfold answer
  rw [bind_of_ok _ _ s _ () entering]
  rcases steady (opened o site s) (opened o site s) ⟨rfl, rfl⟩ with ⟨a, here, -⟩ | ⟨failure, t, -, here, -⟩
  · rw [bind_of_ok _ _ _ _ a here, here, bind_of_ok _ _ _ _ () (leave_opened o site s)]
    rfl
  · rw [bind_of_error _ _ _ t failure here, here]

section

variable (o : Options) (inlined : o.linkStyle = .inlined) (flowing : o.preformattedCode = false)

theorem container_tags (t : String) (listed : t ∈ ["blockquote", "ul", "ol", "li"]) :
    isBlockTag t = true ∧ t ≠ "code" ∧ t ≠ "pre" := by
  have all : ∀ name ∈ ["blockquote", "ul", "ol", "li"], isBlockTag name = true ∧ name ≠ "code" ∧ name ≠ "pre" := by
    decide
  exact all t listed

include inlined in
theorem container_answer (outer : List Open) (isBlock : Bool) (path : List Step) (output : Chars) (m : Mark)
    (t : String) (a : Attrs) (ks : List Marked) (rule : Rule) (listed : t ∈ ["blockquote", "ul", "ol", "li"])
    (found : ({} : RuleTable).find ⟨.element m t a ks, path⟩ o m.blank = .ok rule)
    (renders : rule.rendersChildren = true) (writable : needsEndlessMarker ⟨.element m t a ks, path⟩ = false) :
    answer (elementText {} o outer isBlock path output m t a ks) {} =
      (answer (nodes {} o (⟨output, isBlock⟩ :: outer) true (.element m t a) path [] [] ks) {} >>= fun content =>
        answer (rule.replacement content ⟨.element m t a ks, path⟩ o) {}) := by
  obtain ⟨block, code, pre⟩ := container_tags t listed
  have table := inlined_table_steady o inlined
  have children := nodes_steady {} o table (⟨output, isBlock⟩ :: outer) true (.element m t a) path [] [] ks
  rw [container_text {} o outer isBlock path output m t a ks rule block found renders,
    answer_inside o ⟨.element m t a ks, path⟩ _ (steady_bind _ _ children (table _ _ rule found)) {} code pre writable,
    answer_bind _ _ children]

include flowing in
theorem unseen_output (b : Tree) (alone : StandsAlone b) (unseen : isSeen (unmark b) = false) (written : Chars)
    (worked : ruleOutput o b = .ok written) : core written = [] := by
  cases b with
  | text | comment | document => exact absurd (show "" ∈ standingTags from alone.tag) (by decide)
  | element m t a ks =>
      have blank := prepare_blank o flowing {} t a (ks.map unmark)
      obtain ⟨m', ks', shape⟩ : ∃ m' ks', prepare o (.element {} t a (ks.map unmark)) = .element m' t a ks' := by
        rw [prepare, flowing]
        exact ⟨_, _, rfl⟩
      rw [unmark_element] at unseen
      rw [unseen, shape] at blank
      rw [ruleOutput, unmark_element, shape, answer] at worked
      split at worked
      · rename_i result text s rendered
        cases worked
        obtain ⟨rule, content, s₁, s₂, s₃, found, -, replaced⟩ :=
          element_ok {} o [] true [] [] m' t a ks' written {} s rendered
        rw [show m'.blank = true from blank] at found
        cases found
        have block : Node.isBlock (.element m' t a ks') = true := (standing_block t alone.tag).1
        simp only [replace, block, Bool.true_or, if_true] at replaced
        change Rule.blankReplacement content _ o s₂ = .ok written s₃ at replaced
        rw [of_function_ok _ content _ o s₂ s₃ written replaced, block]
        rfl
      · cases worked

include flowing in
-- A blank block leaves newlines, and only blank blocks are below a container that is blank.
theorem seen_blocks (bs : List Tree) (alone : ∀ b ∈ bs, StandsAlone b) (texts : List Chars)
    (outputs : bs.mapM (ruleOutput o) = .ok texts) (some : stacked (texts.map core) ≠ []) :
    (bs.map unmark).any isSeen = true := by
  rcases stacked_first (texts.map core) with none | ⟨block, member, left, -⟩
  · exact absurd none some
  · obtain ⟨text, inside, rfl⟩ := List.mem_map.mp member
    obtain ⟨b, listed, output⟩ := map_ok_mem _ bs texts outputs text inside
    refine List.any_eq_true.mpr ⟨unmark b, List.mem_map_of_mem listed, ?_⟩
    cases seen : isSeen (unmark b) with
    | true => rfl
    | false => exact absurd (unseen_output o flowing b (alone b listed) seen text output) left

include inlined flowing

theorem quote_output (bs : List Tree) (alone : ∀ b ∈ bs, StandsAlone b) (texts : List Chars)
    (outputs : bs.mapM (ruleOutput o) = .ok texts) (seen : (bs.map unmark).any isSeen = true) (a : Attrs) :
    ruleOutput o (.element () "blockquote" a bs) = .ok (Block.apart (quoted (core (texts.foldl join [])))) := by
  have blank : (!(staysBlankTag "blockquote" || (bs.map unmark).any isSeen)) = false := by rw [seen, Bool.or_true]; rfl
  unfold ruleOutput
  rw [unmark_element, prepare_container o flowing {} _ a _ (alone_blocks bs alone), blank, if_neg (by decide), blockText,
    container_answer o inlined [] true [] [] _ "blockquote" a _ _ (by decide) rfl rfl rfl,
    blocks_answer o inlined flowing _ true _ [] bs alone (by simp [Head.tag]), outputs, ← quote_text_eq]
  rfl

omit inlined flowing in
theorem last_item_written (content marker : Chars) (site : Site) (last : site.following = [])
    (marked : site.node.mark.marker = some marker) :
    answer (Block.listItem content site o) {} = .ok (Block.itemText marker content) := by
  have noted : Block.markerOf o site = marker := by rw [Block.markerOf, marked]; rfl
  have alone : ({} : State).hasFollowingContent o site = false := by rw [State.hasFollowingContent, last]; rfl
  change Except.ok (if (({} : State).hasFollowingContent o site &&
    (Block.itemText (Block.markerOf o site) content).getLast? != some '\n') = true then _ else _) = _
  rw [noted, alone, Bool.false_and, if_neg (by simp)]

theorem item_output (bs : List Tree) (alone : ∀ b ∈ bs, StandsAlone b) (flat : ∀ b ∈ bs, isListTag b.tag = false)
    (texts : List Chars) (outputs : bs.mapM (ruleOutput o) = .ok texts) (outer : List Open) (isBlock : Bool)
    (path : List Step) (last : ∀ step ∈ path.head?, step.after = []) (m : Mark) (a : Attrs) (marker : Chars)
    (marked : m.marker = some marker) (seen : m.blank = false) :
    answer (elementText {} o outer isBlock path [] m "li" a ((bs.map unmark).map (prepare o))) {} =
      .ok (Block.itemText marker (texts.foldl join [])) := by
  have writable : needsEndlessMarker ⟨.element m "li" a ((bs.map unmark).map (prepare o)), path⟩ = false := by
    change (m.marker.isNone && _) = false
    rw [marked]
    rfl
  have found : ({} : RuleTable).find ⟨.element m "li" a ((bs.map unmark).map (prepare o)), path⟩ o m.blank =
      .ok { name := "list-item", filter := .tags ["li"], replacement := Block.listItem } := by
    rw [seen]
    rfl
  have ends : Site.following ⟨.element m "li" a ((bs.map unmark).map (prepare o)), path⟩ = [] := by
    unfold Site.following
    cases path with
    | nil => rfl
    | cons step rest =>
        dsimp only
        rw [last step rfl]
        split <;> rfl
  rw [container_answer o inlined outer isBlock path [] m "li" a _ _ (by decide) found rfl writable,
    blocks_answer o inlined flowing _ true _ path bs alone (fun b listed list => by simp [flat b listed] at list),
    outputs]
  exact last_item_written o _ marker _ ends marked

theorem list_output (bs : List Tree) (alone : ∀ b ∈ bs, StandsAlone b) (flat : ∀ b ∈ bs, isListTag b.tag = false)
    (texts : List Chars) (outputs : bs.mapM (ruleOutput o) = .ok texts) (seen : (bs.map unmark).any isSeen = true)
    (t : String) (list : t = "ul" ∨ t = "ol") (a b : Attrs) (marker : Chars)
    (numbered : ListMarker.ofList o (.element {} t a [.element {} "li" b (bs.map unmark)]) = [marker]) :
    ruleOutput o (.element () t a [.element () "li" b bs]) =
      .ok (Block.apart (join [] (Block.itemText marker (texts.foldl join [])))) := by
  have blocks := alone_blocks bs alone
  have itemSeen : [Node.element {} "li" b (bs.map unmark)].any isSeen = true := by
    rw [List.any_cons, seen_container {} "li" b _ blocks, seen, Bool.or_true]
    rfl
  have item : prepare o (.element {} "li" b (bs.map unmark)) =
      .element {} "li" b ((bs.map unmark).map (prepare o)) := by
    rw [prepare_container o flowing {} "li" b _ blocks, seen, Bool.or_true, if_neg (by decide)]
    rfl
  have listed : isListTag t = true := by rcases list with rfl | rfl <;> rfl
  have prepared : prepare o (unmark (.element () t a [.element () "li" b bs])) =
      .element {} t a [.element { marker := some marker } "li" b ((bs.map unmark).map (prepare o))] := by
    rw [unmark_element, List.map_cons, List.map_nil, unmark_element,
      prepare_container o flowing {} t a _ (by simp [Node.isBlock, Node.tag, isBlockTag, blockTags]), itemSeen,
      Bool.or_true, if_pos listed, numbered, List.map_cons, List.map_nil, item]
    rfl
  obtain ⟨rule, found, renders, replaces⟩ : ∃ rule : Rule, ({} : RuleTable).find ⟨.element {} t a
      [.element { marker := some marker } "li" b ((bs.map unmark).map (prepare o))], []⟩ o false = .ok rule ∧
      rule.rendersChildren = true ∧ rule.replacement = Block.list := by
    rcases list with rfl | rfl <;> exact ⟨_, rfl, rfl, rfl⟩
  have writable : needsEndlessMarker ⟨.element {} t a
      [.element { marker := some marker } "li" b ((bs.map unmark).map (prepare o))], []⟩ = false := by
    rcases list with rfl | rfl
    · rfl
    · rw [ordered_needs, ListMarker.single_writable a _ rfl]
  have only : answer (nodes {} o [⟨[], true⟩] true (.element {} t a) [] [] []
      [.element { marker := some marker } "li" b ((bs.map unmark).map (prepare o))]) {} =
      .ok (join [] (Block.itemText marker (texts.foldl join []))) := by
    simp only [nodes, bind_pure, node_element]
    rw [answer_bind _ _ (element_steady {} o (inlined_table_steady o inlined) _ _ _ _ _ "li" b _ fun outer isBlock head =>
      nodes_steady {} o (inlined_table_steady o inlined) outer isBlock head _ [] [] _),
      item_output o inlined flowing bs alone flat texts outputs _ true _ (by simp [Site.pathTo, Node.mark]) _ b marker rfl
        rfl]
    rfl
  rw [ruleOutput, prepared, blockText, container_answer o inlined [] true [] [] {} t a _ rule
    (by rcases list with rfl | rfl <;> decide) found renders writable, only, replaces]
  simp only [list_outside _ _ [] o (show OutsideItem [] by simp [OutsideItem])]
  rfl

-- The joined outputs of some blocks, between the newlines at their ends, are what the blocks are converted to.
theorem outputs_solid (bs : List Tree) (text : Chars) (renders : RendersTo o bs text) :
    ∃ texts, bs.mapM (ruleOutput o) = .ok texts ∧ core (texts.foldl join []) = text ∧ Solid text ∧
      (bs.map unmark).any isSeen = true := by
  obtain ⟨alone, solid, converted, some⟩ := renders
  rw [document_stacks o inlined flowing bs alone solid] at converted
  cases outputs : bs.mapM (ruleOutput o) with
  | error failure =>
      rw [outputs] at converted
      cases converted
  | ok texts =>
      rw [outputs] at converted
      obtain rfl : stacked (texts.map core) = text := Except.ok.inj converted
      have margins := outputs_margins o inlined flowing bs alone solid texts outputs
      have whole : core (texts.foldl join []) = stacked (texts.map core) := by
        rw [core_join_all [] texts fun text member => (margins text member).1]
        exact stacked_empty _
      have first : (stacked (texts.map core)).head?.any Text.isNewline = false := by
        rw [← whole, core, ← Text.trim_both]
        exact Text.drop_stop _ _
      have last := (bare_stacked (texts.map core) (by simpa using fun text member => (margins text member).2)).last
      exact ⟨texts, rfl, whole, ⟨some, first, last⟩, seen_blocks o flowing bs alone texts outputs some⟩

theorem apart_renders (b : Tree) (alone : StandsAlone b) (body text : Chars)
    (output : ruleOutput o b = .ok (Block.apart body)) (whole : core body = text) (solid : Solid text) :
    RendersTo o [b] text := by
  have kept : core (Block.apart body) = text := (core_apart body).trans whole
  have ends : EndsSolid o b := by
    intro written worked
    rw [output] at worked
    cases worked
    exact solid_end _ (kept.symm ▸ solid)
  refine ⟨by simpa using alone, by simpa using ends, ?_, solid.some⟩
  rw [document_stacks o inlined flowing [b] (by simpa using alone) (by simpa using ends), List.mapM_cons, output,
    List.mapM_nil]
  exact congrArg Except.ok ((stacked_single _).trans kept)

omit inlined flowing in
theorem container_alone (bs : List Tree) (t : String) (listed : t ∈ standingTags) (a : Attrs)
    (bodiless : Bodiless bs) : StandsAlone (.element () t a bs) := by
  refine ⟨listed, List.find?_eq_none.mpr fun n member => ?_⟩
  rw [bodiless n member]
  exact Bool.false_ne_true

theorem quote_renders (bs : List Tree) (text : Chars) (renders : RendersTo o bs text) (a : Attrs) :
    RendersTo o [.element () "blockquote" a bs] (quoted text) := by
  obtain ⟨texts, outputs, whole, kept, seen⟩ := outputs_solid o inlined flowing bs text renders
  have output := quote_output o inlined flowing bs renders.alone texts outputs seen a
  rw [whole] at output
  exact apart_renders o inlined flowing _ (container_alone bs _ (by decide) a (alone_bodiless bs renders.alone)) _ _ output
    (solid_core _ (quoted_solid text kept)) (quoted_solid text kept)

theorem list_renders (bs : List Tree) (text : Chars) (renders : RendersTo o bs text)
    (flat : ∀ b ∈ bs, isListTag b.tag = false) (t : String) (list : t = "ul" ∨ t = "ol") (a b : Attrs) (marker : Chars)
    (numbered : ListMarker.ofList o (.element {} t a [.element {} "li" b (bs.map unmark)]) = [marker]) :
    RendersTo o [.element () t a [.element () "li" b bs]] (behind marker text) := by
  obtain ⟨texts, outputs, whole, kept, seen⟩ := outputs_solid o inlined flowing bs text renders
  have marked : Inked marker := (of_list_markers o _ marker (by rw [numbered]; exact List.mem_cons_self)).inked
  have item := item_core marker (texts.foldl join []) marked (whole.symm ▸ kept)
  have bodiless : Bodiless [.element () "li" b bs] := by
    intro n member
    rcases List.mem_cons.mp member with rfl | inside
    · rfl
    · exact alone_bodiless bs renders.alone n (by simpa [Node.descendants, Node.forest] using inside)
  rw [whole] at item
  exact apart_renders o inlined flowing _
    (container_alone _ t (by rcases list with rfl | rfl <;> decide) a bodiless) _ _
    (list_output o inlined flowing bs renders.alone flat texts outputs seen t list a b marker numbered)
    ((core_join_nil _).trans item) (behind_solid marker text marked kept)

theorem quotes_render (bs : List Tree) (text : Chars) (renders : RendersTo o bs text) (layers : List Attrs) :
    RendersTo o (quotesAround layers bs) (quoted^[layers.length] text) := by
  induction layers with
  | nil => exact renders
  | cons a layers ih =>
      rw [List.length_cons, Function.iterate_succ_apply']
      exact quote_renders o inlined flowing _ _ ih a

theorem containers_act_on_lines (bs : List Tree) (text : Chars) (renders : RendersTo o bs text)
    (flat : ∀ b ∈ bs, isListTag b.tag = false) :
    (∀ layers, conversion o (.document () (quotesAround layers bs)) = .ok (quoted^[layers.length] text)) ∧
    (∀ a b, conversion o (.document () [.element () "ul" a [.element () "li" b bs]]) =
      .ok (behind (ListMarker.bullet o) text)) ∧
    ∀ a b, conversion o (.document () [.element () "ol" a [.element () "li" b bs]]) =
      .ok (behind (ListMarker.numbered (ListMarker.start a)) text) := by
  refine ⟨fun layers => ?_, fun a b => ?_, fun a b => ?_⟩
  · exact (quotes_render o inlined flowing bs text renders layers).converted
  · exact (list_renders o inlined flowing bs text renders flat "ul" (.inl rfl) a b (ListMarker.bullet o) rfl).converted
  · have first : ListMarker.start a + ((0 : Nat) : Int) = ListMarker.start a := by omega
    have numbered : ListMarker.ofList o (.element {} "ol" a [.element {} "li" b (bs.map unmark)]) =
        [ListMarker.numbered (ListMarker.start a)] := by
      change [ListMarker.numbered (ListMarker.start a + ((0 : Nat) : Int))] = _
      rw [first]
    exact (list_renders o inlined flowing bs text renders flat "ol" (.inr rfl) a b _ numbered).converted

end

def twoParagraphs : List Tree := [.element () "p" [] [.text () ['a']], .element () "p" [] [.text () ['b']]]

theorem two_paragraphs_contained :
    RendersTo {} twoParagraphs "a\n\nb".toList ∧ (∀ b ∈ twoParagraphs, isListTag b.tag = false) ∧
    conversion {} (.document () (quotesAround [[], []] twoParagraphs)) = .ok "> > a\n> >\n> > b".toList ∧
    conversion {} (.document () [.element () "ol" [("start", ['9'])] [.element () "li" [] twoParagraphs]]) =
      .ok "9. a\n\n   b".toList := by
  have alone : ∀ b ∈ twoParagraphs, StandsAlone b := by
    simp only [twoParagraphs, List.forall_mem_cons]
    exact ⟨⟨by decide, rfl⟩, ⟨by decide, rfl⟩, by simp⟩
  have solid : ∀ b ∈ twoParagraphs, EndsSolid {} b := by
    simp only [twoParagraphs, List.forall_mem_cons]
    refine ⟨?_, ?_, by simp⟩
    all_goals
      rintro written ⟨⟩
      rfl
  have renders : RendersTo {} twoParagraphs "a\n\nb".toList := ⟨alone, solid, rfl, by decide⟩
  have flat : ∀ b ∈ twoParagraphs, isListTag b.tag = false := by decide
  obtain ⟨quotes, -, numbered⟩ := containers_act_on_lines {} rfl rfl twoParagraphs _ renders flat
  exact ⟨renders, flat, (quotes [[], []]).trans rfl, (numbered [("start", ['9'])] []).trans rfl⟩

end Downmark.Render
