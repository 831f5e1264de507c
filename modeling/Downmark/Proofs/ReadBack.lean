import Downmark.Proofs.LegibleText
/-!
Documents of one paragraph of text, read back from what they are converted to. Main statement: the text is neither
lost nor glued together, unless a blank element hides white space that browsers do not collapse.
-/

set_option autoImplicit false

namespace Downmark

-- Text, comments, and inline content that is left to the default rule, or to the blank rule.
def Unadorned (o : Options) (site : Site) : Prop :=
  match site.node with
  | .text _ _ => True
  | .comment _ _ => True
  | .document _ _ => False
  | .element _ t _ _ => isBlockTag t = false ∧ isVoidTag t = false ∧
      (({} : RuleTable).find site o site.node.isBlank = .ok Rule.default ∨
        ({} : RuleTable).find site o site.node.isBlank = .ok Rule.blank)

theorem RuleTable.blank_unlisted : ∀ rule ∈ ({} : RuleTable).inOrder, rule.name ≠ Rule.blank.name := by
  simp [inOrder, CommonMark.rules, Rule.removals, removedTags, Rule.blank]

theorem RuleTable.blank_apart (site : Site) (o : Options) : ({} : RuleTable).find site o false ≠ .ok Rule.blank := by
  intro found
  rcases RuleTable.find_cases {} site o false Rule.blank found with ⟨blank, -⟩ | ⟨-, listed, -⟩ | ⟨-, same, -⟩
  · cases blank
  · exact RuleTable.blank_unlisted _ listed rfl
  · exact absurd (congrArg Rule.name same) (by decide)

mutual

theorem unadorned_phrasing (o : Options) (path : List Step) (n : Tree)
    (outside : Site.parentTag? ⟨n.mapMarks unmarked, path⟩ ≠ some "pre")
    (left : ∀ below ∈ Site.within path (n.mapMarks unmarked), Unadorned o below) :
    Node.Phrasing (n.mapMarks unmarked) := by
  cases n with
  | text m data | comment m data => trivial
  | document m ks => exact (left _ List.mem_cons_self).elim
  | element m t a ks =>
      obtain ⟨inline, filled, found⟩ := left _ List.mem_cons_self
      have inner : (Head.element (unmarked m) t a).tag ≠ "pre" := by
        rintro rfl
        exact absurd inline (by decide)
      refine ⟨inline, filled, fun seen => ?_, unadorned_phrasing_all o _ path [] ks inner
        (fun below member => left below (List.mem_cons_of_mem _ member))⟩
      dsimp only [Node.mapMarks] at found
      rw [seen] at found
      exact default_plain o _ t a _ path (absurd · outside) inline filled
        (found.resolve_right (RuleTable.blank_apart ⟨.element (unmarked m) t a _, path⟩ o))

theorem unadorned_phrasing_all (o : Options) (head : Head) (path : List Step) (before : List Marked) (ks : List Tree)
    (outside : head.tag ≠ "pre")
    (left : ∀ below ∈ Site.among head path before (Node.mapAllMarks unmarked ks), Unadorned o below) :
    Node.PhrasingAll (Node.mapAllMarks unmarked ks) := by
  cases ks with
  | nil => trivial
  | cons n rest =>
      rw [Node.mapAllMarks, Site.among] at left
      exact ⟨unadorned_phrasing o _ n (path_to_outside head path before _ _ outside)
          (fun below member => left below (List.mem_append_left _ member)),
        unadorned_phrasing_all o head path _ rest outside
          (fun below member => left below (List.mem_append_right _ member))⟩

end

namespace Text

theorem strip_around (u m w : Chars) (left : ∀ c ∈ u, isBlank c) (right : ∀ c ∈ w, isBlank c) :
    strip (u ++ m ++ w) = strip m := by
  obtain ⟨l, r, whole, before, after, first, last⟩ := strip_parts m
  have inner := strip_between (u ++ l) (strip m) (r ++ w)
    (fun c member => (List.mem_append.mp member).elim (left c) (before c))
    (fun c member => (List.mem_append.mp member).elim (after c) (right c)) first last
  have parts : u ++ l ++ strip m ++ (r ++ w) = u ++ (l ++ strip m ++ r) ++ w := by simp
  rwa [parts, ← whole] at inner

end Text

namespace Render

open Glyph Whitespace

theorem settled_parts (s : Chars) : ∃ before after, squeeze s = before ++ settled s ++ after ∧
    (∀ c ∈ before, c = ' ') ∧ ∀ c ∈ after, c = ' ' := by
  obtain ⟨before, front, spaces⟩ := Text.trim_start_run (· == ' ') (squeeze s)
  obtain ⟨after, back, others⟩ := Text.trim_end_run (· == ' ') (Text.trimStart (· == ' ') (squeeze s))
  refine ⟨before, after, ?_, fun c member => by simpa using spaces c member,
    fun c member => by simpa using others c member⟩
  rw [List.append_assoc, settled, Text.trim, ← back]
  exact front

theorem strip_settled (s : Chars) : Text.strip (settled s) = Text.strip (squeeze s) := by
  obtain ⟨before, after, whole, spaces, others⟩ := settled_parts s
  rw [whole, Text.strip_around before (settled s) after (fun c member => spaces c member ▸ rfl)
    (fun c member => others c member ▸ rfl)]

theorem settled_fluent (gs : List Glyph) (s : Chars) (text : chars gs = settled s) : Fluent gs := by
  obtain ⟨before, after, whole, -, -⟩ := settled_parts s
  have spaced := squeeze_spaced false s
  have tight := squeeze_from_tight false s
  rw [show squeezeFrom false s = squeeze s from rfl, whole] at spaced tight
  rw [← text] at spaced tight
  refine ⟨fun c member => spaced c (by simp [member]), ?_⟩
  intro front back same
  exact tight (before ++ front) (back ++ after) (by rw [same]; simp)

-- What is left of a paragraph once the output is trimmed.
theorem trimmed_apart (content : Chars) (start : content.head?.any isLineStart = false) :
    trimmed (join [] (Block.apart content)) = Text.trimEnd Text.isBlank content := by
  have joined : join [] (Block.apart content) =
      '\n' :: '\n' :: Text.trimStart Text.isNewline (content ++ ['\n', '\n']) :=
    join_apart [] (content ++ ['\n', '\n'])
  rw [trimmed, joined]
  cases content with
  | nil => rfl
  | cons c rest =>
      have begun : isLineStart c = false := by simpa using start
      have line : Text.isNewline c = false := by
        by_contra newline
        obtain rfl : c = '\n' := by simpa [Text.isNewline] using newline
        cases begun
      have first : Text.trimStart isLineStart ('\n' :: '\n' :: (c :: rest ++ ['\n', '\n'])) =
          c :: rest ++ ['\n', '\n'] := by
        rw [Text.trimStart, List.dropWhile_cons_of_pos rfl, List.dropWhile_cons_of_pos rfl, List.cons_append,
          List.dropWhile_cons_of_neg (by simp [begun])]
      have kept : Text.trimStart Text.isNewline (c :: rest ++ ['\n', '\n']) = c :: rest ++ ['\n', '\n'] :=
        List.dropWhile_cons_of_neg (by simp [line])
      rw [kept, first, Text.trim_end_append, Text.trim_end_all Text.isBlank ['\n', '\n'] (by simp [Text.isBlank]),
        if_pos List.isEmpty_nil]

theorem spaced_ends (s : Chars) (spaced : Spaced s) :
    s.head?.any isLineStart = false ∧ s.getLast?.any Text.isNewline = false := by
  have inner (c : Char) (member : c ∈ s) : isLineStart c = false ∧ Text.isNewline c = false := by
    have plain (d : Char) (blank : isCollapsible d) (other : d ≠ ' ') : c ≠ d := by
      rintro rfl
      exact other (spaced c member blank)
    have line := plain '\n' rfl (by decide)
    simp [isLineStart, Text.isNewline, line, plain '\t' rfl (by decide), plain '\r' rfl (by decide)]
  constructor
  · cases first : s.head? with
    | none => rfl
    | some c => exact (inner c (List.mem_of_head? first)).1
  · cases last : s.getLast? with
    | none => rfl
    | some c => exact (inner c (List.mem_of_getLast? last)).2

theorem trimmed_paragraph (content : Chars) (spaced : Spaced content) :
    trimmed (join [] (Block.apart content)) = Text.trimEnd Text.isBlank content :=
  trimmed_apart content (spaced_ends content spaced).1

theorem read_trimmed (content s : Chars) (reads : Escape.Reads content s) :
    Text.strip (Escape.unescape (Text.trimEnd Text.isBlank content)) = Text.strip s := by
  obtain ⟨run, whole, blank⟩ := Text.trim_end_run Text.isBlank content
  generalize Text.trimEnd Text.isBlank content = kept at whole ⊢
  subst whole
  obtain ⟨t, u, rfl, first, last⟩ := Escape.reads_cut kept run s reads (blank_text_free run blank)
  have unslashed : '\\' ∉ run := fun member => absurd (blank '\\' member) (by decide)
  rw [← List.append_nil run] at last
  obtain ⟨v, rfl, nothing⟩ := Escape.reads_behind run [] u last unslashed
  cases nothing
  have shorter := Text.strip_around [] t run (by simp) blank
  rw [List.nil_append] at shorter
  rw [Escape.reads_unescape kept t first, List.append_nil, shorter]

theorem squeeze_blank (s : Chars) (blank : ∀ c ∈ s, Text.isBlank c) : ∀ c ∈ squeeze s, Text.isBlank c := by
  intro c member
  by_cases collapsible : isCollapsible c
  · exact collapsible_blank c collapsible
  · have inside : c ∈ ink (squeeze s) := List.mem_filter.mpr ⟨member, by simpa using collapsible⟩
    rw [squeeze, squeeze_from_ink] at inside
    exact blank c (List.mem_filter.mp inside).1

theorem unseen_kept (gs : List Glyph) (unseen : ∀ g ∈ gs, g.isSeen = false) : ¬ Loses gs := by
  rintro ⟨first, lost, last, part, seen, -, -⟩
  rw [unseen first (part.subset List.mem_cons_self)] at seen
  cases seen

theorem phrasing_bodiless (a : Attrs) (ks : List Tree) (phrasing : Node.PhrasingAll ks) :
    Bodiless [.element () "p" a ks] := by
  intro n member
  rw [Node.forest, Node.forest, List.append_nil, List.mem_cons] at member
  rcases member with rfl | below
  · rfl
  · have level := (Node.phrasing_all_inside ks phrasing n below).1
    cases n with
    | text | comment | document => rfl
    | element m t a' ks' =>
        have other : t ≠ "body" := by
          rintro rfl
          exact absurd (show isBlockTag "body" = false from level) (by decide)
        simpa [Node.isNamed] using other

theorem paragraph_root (o : Options) (flowing : o.preformattedCode = false) (a : Attrs) (ks : List Tree) (m : Mark)
    (ks' : List Marked) (bodiless : Bodiless [.element () "p" a ks])
    (prepared : prepare o (unmark (.element () "p" a ks)) = .element m "p" a ks') :
    root {} o (Site.ofTree (.document () [.element () "p" a ks])) =
      nodes {} o [] true (.document {}) [] [] [] [.element m "p" a ks'] := by
  have block : ∀ n ∈ [unmark (.element () "p" a ks)], n.isBlock = true := by
    intro n member
    rw [List.mem_singleton.mp member]
    exact (by decide : isBlockTag "p" = true)
  have shape : prepare o (Site.ofTree (.document () [.element () "p" a ks])).node =
      .document {} [.element m "p" a ks'] := by
    rw [← prepared]
    exact prepare_document o flowing {} _ block
  unfold root
  rw [document_root _ bodiless]
  unfold Site.prepared
  rw [shape]
  rfl

theorem paragraph_read_back (o : Options) (flowing : o.preformattedCode = false) (a : Attrs) (ks : List Tree)
    (unadorned : ∀ site ∈ (Site.ofTree (.document () [.element () "p" a ks])).all.drop 2, Unadorned o site) :
    ∃ out, conversion o (.document () [.element () "p" a ks]) = .ok out ∧
      (Text.strip (Escape.unescape out) = Text.strip (squeeze (Node.textContents ks)) ↔
        ¬ Loses (Node.glyphsOf (fun _ data => data) ks)) := by
  let below := Node.mapAllMarks unmarked ks
  let start := logged (.document () [.element () "p" a ks])
  have marked : Node.PhrasingAll below := by
    refine unadorned_phrasing_all o (.element {} "p" a)
      (Site.pathTo (.document {}) [] [] [] (.element {} "p" a below)) [] ks (by simp [Head.tag]) ?_
    exact fun site member => unadorned site (List.mem_append_left _ member)
  have phrasing : Node.PhrasingAll ks := (Node.phrasing_all_marks unmarked ks).mp marked
  have raws : Node.glyphsOf raw below = Node.glyphsOf (fun _ data => data) ks := Node.glyphs_of_marks unmarked raw ks
  have texts : Node.textContents below = Node.textContents ks := by
    rw [← Node.phrasing_texts ks phrasing, ← Node.phrasing_texts below marked]
    exact congrArg chars raws
  obtain ⟨m, ks', prepared, blank, settles⟩ := paragraph_shown o flowing {} a below marked
  obtain ⟨content, rendered, spaced, s, reads, shows⟩ := nodes_tell o flowing start rfl [⟨[], true⟩] true
    (.element m "p" a) (Site.pathTo (.document {}) [] [] [] (.element m "p" a ks')) [] [] ks' settles.phrasing
    settles.flagged [] tells_nil (settled_fluent _ _ settles.text) ⟨settles.white, fun coded => by cases coded⟩
  have joined := paragraph_joined o start [] true [] m a ks' _ content rendered
  have worked : root {} o (Site.ofTree (.document () [.element () "p" a ks])) start =
      .ok (join [] (if m.blank then ['\n', '\n'] else Block.apart content)) start := by
    rw [paragraph_root o flowing a ks m ks' (phrasing_bodiless a ks phrasing) prepared, nodes,
      bind_of_ok _ _ _ _ _ joined]
    rfl
  refine ⟨_, conversion_ok o _ _ worked, ?_⟩
  cases seen : m.blank with
  | false =>
      rw [if_neg Bool.false_ne_true, trimmed_paragraph content spaced, read_trimmed content s reads, ← texts,
        ← strip_settled, ← settles.text, ← raws, loses_solid, ← settles.solid, ← loses_solid]
      exact shows_strip_iff _ s shows settles.white
  | true =>
      have hidden : ∀ c ∈ Node.textContents ks, Text.isBlank c := by
        rw [← texts]
        exact Node.blank_element_text {} "p" a below (blank ▸ seen)
      have unseen : ∀ g ∈ Node.glyphsOf (fun _ data => data) ks, g.isSeen = false := by
        intro g member
        have inside : g.char ∈ Node.textContents ks := by
          rw [← Node.phrasing_texts ks phrasing]
          exact List.mem_map_of_mem member
        simp [Glyph.isSeen, hidden g.char inside]
      rw [strip_of_blank _ (squeeze_blank _ hidden)]
      exact iff_of_true rfl (unseen_kept _ unseen)

def spacedByBlank : List Tree :=
  [.text () ['x', '*'], .element () "b" [] [.text () ['\n', ' ']], .text () ['y']]

theorem spaced_by_blank_unadorned :
    ∀ site ∈ (Site.ofTree (.document () [.element () "p" [] spacedByBlank])).all.drop 2, Unadorned {} site := by
  intro site member
  rcases List.mem_cons.mp member with rfl | later
  · trivial
  · rcases List.mem_cons.mp later with rfl | texts
    · exact ⟨by decide, by decide, .inr rfl⟩
    · rcases List.mem_cons.mp texts with rfl | last
      · trivial
      · obtain rfl := List.mem_singleton.mp last
        trivial

theorem spaced_by_blank_read_back :
    conversion {} (.document () [.element () "p" [] spacedByBlank]) = .ok "x\\* y".toList ∧
      ¬ Loses (Node.glyphsOf (fun _ data => data) spacedByBlank) := by
  obtain ⟨out, converted, whole⟩ := paragraph_read_back {} rfl [] spacedByBlank spaced_by_blank_unadorned
  have evaluated : conversion {} (.document () [.element () "p" [] spacedByBlank]) = .ok "x\\* y".toList := rfl
  obtain rfl := Except.ok.inj (converted.symm.trans evaluated)
  exact ⟨evaluated, whole.mp (by decide)⟩

def hiddenSpace : List Tree :=
  [.text () ['a'], .element () "span" [] [.text () ['\u00a0']], .text () ['b']]

theorem hidden_space_unadorned :
    ∀ site ∈ (Site.ofTree (.document () [.element () "p" [] hiddenSpace])).all.drop 2, Unadorned {} site := by
  intro site member
  rcases List.mem_cons.mp member with rfl | later
  · trivial
  · rcases List.mem_cons.mp later with rfl | texts
    · exact ⟨by decide, by decide, .inr rfl⟩
    · rcases List.mem_cons.mp texts with rfl | last
      · trivial
      · obtain rfl := List.mem_singleton.mp last
        trivial

theorem hidden_space_lost : ¬ ∀ (a : Attrs) (ks : List Tree),
    (∀ site ∈ (Site.ofTree (.document () [.element () "p" a ks])).all.drop 2, Unadorned {} site) →
    ∃ out, conversion {} (.document () [.element () "p" a ks]) = .ok out ∧
      Text.strip (Escape.unescape out) = Text.strip (squeeze (Node.textContents ks)) := by
  intro claim
  obtain ⟨out, converted, same⟩ := claim [] hiddenSpace hidden_space_unadorned
  have evaluated : conversion {} (.document () [.element () "p" [] hiddenSpace]) = .ok ['a', 'b'] := rfl
  obtain rfl := Except.ok.inj (converted.symm.trans evaluated)
  exact absurd same (by decide)

end Render

end Downmark
