import Downmark.Proofs.Contained
import Downmark.Proofs.Joined
import Downmark.Proofs.PreparedOutline
/-!
Converting outlines. Each list is written one item after the other, and what is in an item is moved behind its
marker as a whole. Main statement: an outline is converted to its lines, unless one of its numbers has more
digits than are ever written.
-/

set_option autoImplicit false

namespace Downmark

-- Output that can be written on at once: nothing, or lines that are ended.
def Ready (output : Chars) : Prop := output = [] ∨ ∃ x, output = x ++ ['\n'] ∧ x.getLast?.any Text.isNewline = false

theorem join_ready (output y : Chars) (ready : Ready output) (first : y.head?.any Text.isNewline = false) :
    join output y = output ++ y := by
  rcases ready with rfl | ⟨x, rfl, last⟩
  · exact join_plain [] y rfl first
  · rw [join_after_break x y last first, List.append_assoc]
    rfl

theorem ready_after (output s : Chars) (solid : Solid s) : Ready (output ++ (s ++ ['\n'])) := by
  refine .inr ⟨output ++ s, by simp, ?_⟩
  rw [List.getLast?_append, List.getLast?_eq_some_getLast solid.some]
  have stop := newline_blank _ solid.last
  rwa [List.getLast?_eq_some_getLast solid.some] at stop

theorem item_text_lines (marker first : Chars) (rest : List Chars) (each : ∀ line ∈ first :: rest, Line line) :
    Block.itemText marker (Text.unlines (first :: rest)) =
      Text.unlines ((marker ++ first) :: rest.map (Text.spaces marker.length ++ ·)) := by
  have solid := lines_solid (first :: rest) (by simp) each
  have lines := Text.lines_unlines (first :: rest) (by simp) fun line member => (each line member).free
  have kept : Block.oneFinalNewline (Text.unlines (first :: rest)) = Text.unlines (first :: rest) := by
    have stop := newline_blank _ solid.last
    have whole : Text.trimStart Text.isNewline (Text.unlines (first :: rest)) = Text.unlines (first :: rest) :=
      Text.drop_none _ _ solid.first
    unfold Block.oneFinalNewline
    rw [whole]
    dsimp only
    rw [if_neg]
    intro newline
    rw [show (Text.unlines (first :: rest)).getLast? = some '\n' by simpa using newline] at stop
    cases stop
  have indented : rest.map (fun line => if line.isEmpty then line else Text.spaces marker.length ++ line) =
      rest.map (Text.spaces marker.length ++ ·) := by
    refine List.map_congr_left fun line member => if_neg ?_
    simpa using (each line (List.mem_cons_of_mem first member)).some
  rw [Block.itemText, kept, ← behind_eq, behind, lines]
  dsimp only
  rw [indented]

namespace Render

-- What some work comes to, in any state that is in no code and no preformatted text.
def Yields (work : Rendering Chars) (writable : Bool) (text : Chars) : Prop := ∀ s, Alike s {} →
  if writable then work s = .ok text s else ∃ t, work s = .error .tooManyDigits t

theorem yields_pure (text : Chars) : Yields (pure text) true text := fun _ _ => rfl

theorem yields_bind (first : Rendering Chars) (next : Chars → Rendering Chars) (w v : Bool) (a b : Chars)
    (before : Yields first w a) (after : Yields (next a) v b) : Yields (first >>= next) (w && v) b := by
  intro s alike
  have here := before s alike
  cases w with
  | false =>
      obtain ⟨t, failed⟩ := here
      exact ⟨t, bind_of_error first next s t _ failed⟩
  | true =>
      rw [bind_of_ok first next s s a here]
      exact after s alike

theorem yields_inside (o : Options) (site : Site) (work : Rendering Chars) (w : Bool) (text : Chars)
    (code : site.tag ≠ "code") (pre : site.tag ≠ "pre") (inside : Yields work w text) :
    Yields (do
      enter o site
      let a ← work
      leave o site
      pure a) (!needsEndlessMarker site && w) text := by
  intro s alike
  by_cases endless : needsEndlessMarker site
  · have refused : enter o site s = .error .tooManyDigits s := by rw [enter_eq, if_pos endless]
    rw [endless]
    exact ⟨s, bind_of_error _ _ s s _ refused⟩
  · have entering : enter o site s = .ok () (opened o site s) := by rw [enter_eq, if_neg endless]
    have around := opened_uncounted o site s code pre
    have inner := inside (opened o site s) ⟨around.code.trans alike.code, around.preformatted.trans alike.preformatted⟩
    rw [Bool.not_eq_true _ |>.mp endless, Bool.not_false, Bool.true_and, bind_of_ok _ _ s _ () entering]
    cases w with
    | false =>
        obtain ⟨t, failed⟩ := inner
        exact ⟨t, bind_of_error _ _ _ t _ failed⟩
    | true =>
        rw [if_pos rfl] at inner ⊢
        rw [bind_of_ok _ _ _ _ text inner, bind_of_ok _ _ _ s () (leave_opened o site s)]
        rfl

section

variable (o : Options)

theorem container_yields (outer : List Open) (isBlock : Bool) (path : List Step) (output : Chars) (m : Mark)
    (t : String) (a : Attrs) (ks : List Marked) (rule : Rule) (listed : t ∈ ["blockquote", "ul", "ol", "li"])
    (found : ({} : RuleTable).find ⟨.element m t a ks, path⟩ o m.blank = .ok rule)
    (renders : rule.rendersChildren = true) (w : Bool) (content written : Chars)
    (below : Yields (nodes {} o (⟨output, isBlock⟩ :: outer) true (.element m t a) path [] [] ks) w content)
    (replaces : Yields (rule.replacement content ⟨.element m t a ks, path⟩ o) true written) :
    Yields (node {} o outer isBlock path output (.element m t a ks))
      (!needsEndlessMarker ⟨.element m t a ks, path⟩ && w) (join output written) := by
  obtain ⟨block, code, pre⟩ := container_tags t listed
  have inside := yields_bind _ (fun content => rule.replacement content ⟨.element m t a ks, path⟩ o) w true content
    written below replaces
  rw [node_element, container_text {} o outer isBlock path output m t a ks rule block found renders, ← Bool.and_true
    (!needsEndlessMarker ⟨.element m t a ks, path⟩ && w)]
  rw [Bool.and_true] at inside
  exact yields_bind _ _ _ true written _ (yields_inside o _ _ w written code pre inside) (yields_pure _)

theorem text_yields (outer : List Open) (path : List Step) (text : ItemText) :
    Yields (node {} o outer true path [] text.prepared) true text.written := by
  intro s alike
  have line := written_line text
  have solid : text.written.head?.any Text.isNewline = false := by
    simpa [Text.unlines, List.intercalate] using (lines_solid [text.written] (by simp) (by simpa using line)).first
  have coded : s.inCode = false := by simp [State.inCode, alike.code]
  have kept : s.inPreformatted = false := by simp [State.inPreformatted, alike.preformatted]
  have output : textOutput s o (⟨[], true⟩ :: outer) { shown := some (Whitespace.squeeze text.chars) } text.chars =
      text.written := by
    simp [textOutput, State.textOf, coded, kept, lineSoFar, Text.ending, ItemText.written]
  rw [if_pos rfl, ItemText.prepared, node]
  change EStateM.Result.ok (join [] (textOutput s o _ _ _)) s = _
  rw [output, join_plain [] _ rfl solid, List.nil_append]

theorem item_written (content marker : Chars) (site : Site) (marked : site.node.mark.marker = some marker) (more : Bool)
    (follows : ∀ s : State, s.hasFollowingContent o site = more)
    (last : (Block.itemText marker content).getLast?.any Text.isNewline = false) :
    Yields (Block.listItem content site o) true (Block.itemText marker content ++ if more then ['\n'] else []) := by
  intro s _
  have noted : Block.markerOf o site = marker := by rw [Block.markerOf, marked]; rfl
  have open_ : (Block.itemText marker content).getLast? ≠ some '\n' := by
    intro newline
    rw [newline] at last
    cases last
  rw [if_pos rfl]
  change EStateM.Result.ok (if (s.hasFollowingContent o site &&
    (Block.itemText (Block.markerOf o site) content).getLast? != some '\n') = true then _ else _) s = _
  rw [noted, follows s]
  cases more with
  | false => simp
  | true => simp [open_]

theorem items_follow (s : State) (head : Head) (path : List Step) (before : List Marked) (marker : Option Chars)
    (item : Item) : s.hasFollowingContent o ⟨item.prepared o marker,
      Site.pathTo head path before [] (item.prepared o marker)⟩ = false ∧
    ∀ (next : Nat → Chars) (i : Nat) (rest : Items), s.hasFollowingContent o ⟨item.prepared o marker,
      Site.pathTo head path before (rest.prepared o next i) (item.prepared o marker)⟩ = true := by
  have first (next : Nat → Chars) (i : Nat) (rest : Items) : ∃ m a ks more, rest.prepared o next i =
      .element m "li" a ks :: more := by
    cases rest with
    | last other => cases other <;> exact ⟨_, _, _, _, rfl⟩
    | more other rest => cases other <;> exact ⟨_, _, _, _, rfl⟩
  cases item with
  | plain | nested =>
      refine ⟨rfl, fun next i rest => ?_⟩
      obtain ⟨m, a, ks, more, shape⟩ := first next i rest
      rw [shape]
      rfl

theorem item_moved (outer : List Open) (path : List Step) (output : Chars) (marker : Chars) (like : MarkerLike marker)
    (a : Attrs) (kids : List Marked) (more : Bool) (w : Bool) (first : Chars) (rest : List Chars)
    (follows : ∀ s : State, s.hasFollowingContent o ⟨.element { marker := some marker } "li" a kids, path⟩ = more)
    (each : ∀ line ∈ first :: rest, Line line)
    (below : Yields (nodes {} o (⟨output, true⟩ :: outer) true (.element { marker := some marker } "li" a) path [] []
      kids) w (Text.unlines (first :: rest))) :
    Yields (node {} o outer true path output (.element { marker := some marker } "li" a kids)) w
      (join output (Text.unlines ((marker ++ first) :: rest.map (Text.spaces marker.length ++ ·)) ++
        if more then ['\n'] else [])) := by
  have moved : ∀ line ∈ (marker ++ first) :: rest.map (Text.spaces marker.length ++ ·), Line line := by
    rw [List.forall_mem_cons] at each ⊢
    refine ⟨line_indented marker first like.line each.1, fun line member => ?_⟩
    obtain ⟨inner, listed, rfl⟩ := List.mem_map.mp member
    exact line_indented _ inner (by simp [Text.spaces]) (each.2 inner listed)
  have solid := lines_solid _ (by simp) moved
  have text := item_text_lines marker first rest each
  have written := item_written o (Text.unlines (first :: rest)) marker
    ⟨.element { marker := some marker } "li" a kids, path⟩ rfl more follows (text ▸ newline_blank _ solid.last)
  rw [text] at written
  exact container_yields o outer true path output _ "li" a kids _ (by decide) rfl rfl w _ _ below written

theorem prepared_count (items : Items) (marker : Nat → Chars) (i : Nat) :
    ListMarker.countItems (items.prepared o marker i) = items.count ∧ 0 < items.count := by
  have one (item : Item) (handed : Option Chars) : (item.prepared o handed).isNamed "li" = true := by
    cases item <;> rfl
  cases items with
  | last item => simp [Items.prepared, ListMarker.countItems, one, Items.count]
  | more item rest =>
      obtain ⟨count, -⟩ := prepared_count rest marker (i + 1)
      rw [Items.prepared, Items.count, ← count]
      simp [ListMarker.countItems, one]

mutual

theorem outline_yields (outline : Outline) (outer : List Open) (isBlock : Bool) (path : List Step) (output : Chars)
    (around : Chars → Chars)
    (placed : ∀ content, Yields (Block.list content ⟨outline.prepared o, path⟩ o) true (around content)) :
    Yields (node {} o outer isBlock path output (outline.prepared o)) outline.writable
      (join output (around (Text.unlines (outline.lines o [])))) := by
  cases outline with
  | list ordered a items =>
      have content := items_yield items (markerAt o ordered a) (fun i => marker_at_like o ordered a i) 0
        (⟨output, isBlock⟩ :: outer) (.element {} (listTag ordered) a) path [] [] (.inl rfl)
      have written := placed (Text.unlines ((Outline.list ordered a items).lines o []))
      have writable : (!needsEndlessMarker ⟨(Outline.list ordered a items).prepared o, path⟩ && items.writable) =
          (Outline.list ordered a items).writable := by
        cases ordered with
        | false => rfl
        | true =>
            obtain ⟨count, some⟩ := prepared_count o items (markerAt o true a) 0
            have needs : needsEndlessMarker ⟨(Outline.list true a items).prepared o, path⟩ =
                ListMarker.isEndless a (items.prepared o (markerAt o true a) 0) := rfl
            rw [needs, ListMarker.isEndless, count, Outline.writable, decide_eq_true some, Bool.true_and]
      rw [← writable]
      cases ordered with
      | false => exact container_yields o outer isBlock path output _ _ a _ _ (by decide) rfl rfl _ _ _ content written
      | true => exact container_yields o outer isBlock path output _ _ a _ _ (by decide) rfl rfl _ _ _ content written

theorem items_yield (items : Items) (marker : Nat → Chars) (like : ∀ i, MarkerLike (marker i)) (i : Nat)
    (outer : List Open) (head : Head) (path : List Step) (before : List Marked) (output : Chars)
    (ready : Ready output) :
    Yields (nodes {} o outer true head path before output (items.prepared o marker i)) items.writable
      (output ++ Text.unlines (items.lines o [] marker i)) := by
  cases items with
  | last item =>
      have solid := fits_solid _ (item_fits o (marker i) (like i) item)
      have written := item_yields item (marker i) (like i) outer (Site.pathTo head path before [] _) output false
        fun s => (items_follow o s head path before (some (marker i)) item).1
      rw [if_neg Bool.false_ne_true, List.append_nil, join_ready output _ ready solid.first] at written
      rw [Items.prepared, nodes, Items.writable, ← Bool.and_true item.writable]
      exact yields_bind _ _ _ true _ _ written (yields_pure _)
  | more item rest =>
      have solid := fits_solid _ (item_fits o (marker i) (like i) item)
      have written := item_yields item (marker i) (like i) outer
        (Site.pathTo head path before (rest.prepared o marker (i + 1)) _) output true
        fun s => (items_follow o s head path before (some (marker i)) item).2 marker (i + 1) rest
      have first : (Text.unlines (item.lines o [] (marker i)) ++ ['\n']).head?.any Text.isNewline = false := by
        rw [List.head?_append]
        have start := solid.first
        obtain ⟨c, more, shape⟩ := List.exists_cons_of_ne_nil solid.some
        rw [shape] at start ⊢
        exact start
      rw [if_pos rfl, join_ready output _ ready first] at written
      have others := items_yield rest marker like (i + 1) outer head path (item.prepared o (some (marker i)) :: before) _
        (ready_after output _ solid)
      have shape : output ++ Text.unlines ((Items.more item rest).lines o [] marker i) =
          output ++ (Text.unlines (item.lines o [] (marker i)) ++ ['\n']) ++
            Text.unlines (rest.lines o [] marker (i + 1)) := by
        rw [Items.lines, Text.unlines_append _ _ (fits_some _ (item_fits o _ (like i) item))
          (fits_some _ (items_fit o marker like (i + 1) rest))]
        simp
      rw [Items.prepared, nodes, Items.writable, shape]
      exact yields_bind _ _ _ _ _ _ written others

theorem item_yields (item : Item) (marker : Chars) (like : MarkerLike marker) (outer : List Open) (path : List Step)
    (output : Chars) (more : Bool)
    (follows : ∀ s : State, s.hasFollowingContent o ⟨item.prepared o (some marker), path⟩ = more) :
    Yields (node {} o outer true path output (item.prepared o (some marker))) item.writable
      (join output (Text.unlines (item.lines o [] marker) ++ if more then ['\n'] else [])) := by
  cases item with
  | plain a text =>
      have below : Yields (nodes {} o (⟨output, true⟩ :: outer) true (.element { marker := some marker } "li" a) path
          [] [] [text.prepared]) true (Text.unlines [text.written]) := by
        rw [nodes, show Text.unlines [text.written] = text.written by simp [Text.unlines, List.intercalate]]
        exact yields_bind _ _ true true _ _ (text_yields o _ _ text) (yields_pure _)
      exact item_moved o outer path output marker like a _ more true text.written [] follows
        (by simpa using written_line text) below
  | nested a text below =>
      have under := outline_yields below (⟨output, true⟩ :: outer) true
        (Site.pathTo (.element { marker := some marker } "li" a) path [text.prepared] [] (below.prepared o)) text.written
        ('\n' :: ·) fun content s _ => by cases below; rfl
      have solid := fits_solid _ (outline_fits o below)
      have line := written_line text
      have each : ∀ l ∈ text.written :: below.lines o [], Line l :=
        List.forall_mem_cons.mpr ⟨line, (outline_fits o below).each⟩
      rw [join_before_break text.written _ (newline_blank _ line.last) solid.first,
        ← Text.unlines_cons _ _ (fits_some _ (outline_fits o below))] at under
      rw [nested_lines, Item.writable, ← Bool.and_true below.writable]
      refine item_moved o outer path output marker like a _ more _ text.written _ follows each ?_
      have after : Yields (nodes {} o (⟨output, true⟩ :: outer) true (.element { marker := some marker } "li" a) path
          [text.prepared] text.written [below.prepared o]) (below.writable && true)
          (Text.unlines (text.written :: below.lines o [])) := by
        rw [nodes]
        exact yields_bind _ _ _ true _ _ under (yields_pure _)
      rw [nodes, ← Bool.true_and (below.writable && true)]
      exact yields_bind _ _ true _ _ _ (text_yields o _ _ text) after

end

theorem bodiless_cons (n : Tree) (rest : List Tree) (first : Bodiless [n]) (others : Bodiless rest) :
    Bodiless (n :: rest) := by
  intro below member
  have parts : below ∈ Node.forest [n] ∨ below ∈ Node.forest rest := by
    simpa [Node.forest, or_assoc] using member
  exact parts.elim (first below) (others below)

theorem bodiless_element (t : String) (a : Attrs) (ks : List Tree) (other : t ≠ "body") (below : Bodiless ks) :
    Bodiless [.element () t a ks] := by
  intro n member
  have parts : n = .element () t a ks ∨ n ∈ Node.forest ks := by
    simpa [Node.forest, Node.descendants] using member
  rcases parts with rfl | inside
  · simpa [Node.isNamed] using other
  · exact below n inside

theorem bodiless_text (data : Chars) : Bodiless [.text () data] := by
  simp [Bodiless, Node.forest, Node.descendants, Node.isNamed]

mutual

theorem outline_bodiless (outline : Outline) : Bodiless [outline.tree] := by
  cases outline with
  | list ordered a items =>
      exact bodiless_element (listTag ordered) a _ (by cases ordered <;> decide) (items_bodiless items)

theorem items_bodiless (items : Items) : Bodiless items.trees := by
  cases items with
  | last item => exact item_bodiless item
  | more item rest => exact bodiless_cons _ _ (item_bodiless item) (items_bodiless rest)

theorem item_bodiless (item : Item) : Bodiless [item.tree] := by
  cases item with
  | plain a text => exact bodiless_element "li" a _ (by decide) (bodiless_text _)
  | nested a text below =>
      exact bodiless_element "li" a _ (by decide) (bodiless_cons _ _ (bodiless_text _) (outline_bodiless below))

end

theorem document_yields (flowing : o.preformattedCode = false) (outline : Outline) :
    Yields (root {} o (Site.ofTree (.document () [outline.tree]))) outline.writable
      (join [] (Block.apart (Text.unlines (outline.lines o [])))) := by
  have prepared : prepare o (Site.ofTree (.document () [outline.tree])).node =
      .document {} [outline.prepared o] := by
    have block := unmarked_outline outline
    rw [← prepare_outline o flowing outline]
    exact prepare_document o flowing {} [unmark outline.tree] (by simpa using block)
  have top : root {} o (Site.ofTree (.document () [outline.tree])) =
      nodes {} o [] true (.document {}) [] [] [] [outline.prepared o] := by
    unfold root
    rw [document_root _ (outline_bodiless outline)]
    unfold Site.prepared
    rw [prepared]
    rfl
  have written := outline_yields o outline [] true (Site.pathTo (.document {}) [] [] [] (outline.prepared o)) []
    Block.apart fun content s _ => by cases outline; rfl
  rw [top, nodes, ← Bool.and_true outline.writable]
  exact yields_bind _ _ _ true _ _ written (yields_pure _)

theorem conversion_yields (tree : Tree) (writable : Bool) (output : Chars)
    (yields : Yields (root {} o (Site.ofTree tree)) writable output) :
    conversion o tree = if writable then .ok (trimmed output) else .error .tooManyDigits := by
  have rendered := yields (logged tree) ⟨rfl, rfl⟩
  cases writable with
  | false =>
      obtain ⟨t, failed⟩ := rendered
      exact conversion_error o tree _ t failed
  | true => exact conversion_ok o tree output rendered

theorem unwritable_refused (flowing : o.preformattedCode = false) (outline : Outline)
    (unwritable : outline.writable = false) :
    conversion o (.document () [outline.tree]) = .error .tooManyDigits := by
  have refused := conversion_yields o _ _ _ (document_yields o flowing outline)
  rwa [unwritable, if_neg Bool.false_ne_true] at refused

theorem lists_render_to_outlines (flowing : o.preformattedCode = false) (outline : Outline) :
    conversion o (.document () [outline.tree]) =
      if outline.writable then .ok (Text.unlines (outline.lines o [])) else .error .tooManyDigits := by
  have fits := outline_fits o outline
  have solid := fits_solid _ fits
  have bare : Bare (Text.unlines (outline.lines o [])) := by
    refine ⟨?_, solid.last⟩
    obtain ⟨line, rest, shape, c, more, rfl, ink⟩ := fits.first
    obtain ⟨after, whole⟩ := Text.unlines_first (c :: more) rest
    rw [shape, whole]
    intro d member
    obtain rfl : c = d := by simpa using member
    refine ⟨?_, ink.carriage⟩
    rintro rfl
    exact absurd ink.gap (by decide)
  have whole : trimmed (join [] (Block.apart (Text.unlines (outline.lines o [])))) =
      Text.unlines (outline.lines o []) := by
    have kept := (core_apart _).trans (solid_core _ solid)
    have same := trimmed_blocks [Block.apart (Text.unlines (outline.lines o []))] (by simpa using apart_starts _)
      (by simpa [kept] using bare)
    rw [List.map_singleton, stacked_single, kept] at same
    exact same
  rw [conversion_yields o _ _ _ (document_yields o flowing outline), whole]

end

def itemText (c : Char) (seen : Text.isBlank c = false) : ItemText := ⟨[c], by simp, by simp [seen], by simp [seen]⟩

-- A numbered list in an item of a bullet list, and an item after it.
def nestedLists : Outline :=
  .list false [] (.more (.nested [] (itemText 'a' rfl) (.list true [("start", ['9'])]
    (.more (.plain [] (itemText '*' rfl)) (.last (.plain [] (itemText 'c' rfl))))))
    (.last (.plain [] (itemText 'd' rfl))))

theorem nested_lists_rendered :
    conversion {} (.document () [nestedLists.tree]) = .ok "* a\n  9. \\*\n  10. c\n* d".toList ∧
    nestedLists.writable = true ∧ nestedLists.lines {} [] =
      ["* a".toList, "  9. \\*".toList, "  10. c".toList, "* d".toList] := by
  have short : (Scalar.int (ListMarker.start [("start", ['9'])] + ((2 : Nat) : Int) - 1)).isEndless = false :=
    short_number 10 (Nat.lt_of_lt_of_le (show 10 < 10 ^ 2 by decide) (Nat.pow_le_pow_right (by decide) (by decide)))
  have writable : nestedLists.writable = true := by
    simp only [nestedLists, Outline.writable, Items.writable, Item.writable, Items.count, Bool.false_and, Bool.not_false,
      Bool.true_and, Bool.and_true]
    rw [short]
    rfl
  have lines : nestedLists.lines {} [] =
      ["* a".toList, "  9. \\*".toList, "  10. c".toList, "* d".toList] := rfl
  have converted := lists_render_to_outlines {} rfl nestedLists
  rw [writable, if_pos rfl, lines] at converted
  exact ⟨converted, writable, lines⟩

-- The number of its second item has one digit too many to be written.
def longNumbers : Outline :=
  .list true [("start", List.replicate Text.maxIntegerDigits '9')]
    (.more (.plain [] (itemText 'a' rfl)) (.last (.plain [] (itemText 'b' rfl))))

theorem long_numbers_refused : ({} : Options).preformattedCode = false ∧
    conversion {} (.document () [longNumbers.tree]) ≠ .ok (Text.unlines (longNumbers.lines {} [])) := by
  have unwritable : longNumbers.writable = false := by
    simp only [longNumbers, Outline.writable, Items.writable, Item.writable, Items.count, Bool.true_and, Bool.and_true]
    rw [ListMarker.number_after_nines]
    rfl
  refine ⟨rfl, fun converted => ?_⟩
  rw [unwritable_refused {} rfl longNumbers unwritable] at converted
  cases converted

end Render

end Downmark
