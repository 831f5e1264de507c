import Downmark.Proofs.Crossing
import Downmark.Proofs.Flanking
import Downmark.Proofs.Steady
/-!
Literal text that is split over several nodes of a paragraph. Rendering writes the texts one after the
other, each escaped by itself, and changes nothing of them but runs of white space. Main statement: a
paragraph of plain text exposes markup just where a text of it does so together with what follows.
-/

set_option autoImplicit false

namespace Downmark.Render

-- The texts below a node that are written. Blank elements leave the space at their ends.
mutual

def texts : Marked → List Chars
  | .text m data => [m.shown.getD (Whitespace.squeeze data)]
  | .comment _ _ => []
  | .document _ _ => []
  | .element m _ _ ks => if m.blank then [spaceOf (textsOf ks).flatten] else textsOf ks

def textsOf : List Marked → List Chars
  | [] => []
  | n :: rest => texts n ++ textsOf rest

end

theorem spaced_written (texts ws : List Chars) (written : Escape.Written texts ws) (spaced : ∀ s ∈ texts, Spaced s) :
    Spaced ws.flatten := by
  induction written with
  | nil => simp [Spaced]
  | cons s ahead texts ws _ ih =>
      rw [List.forall_mem_cons] at spaced
      rw [List.flatten_cons]
      refine spaced_append _ _ ?_ (ih spaced.2)
      intro c member blank
      rcases Escape.spelled_mem _ true s _ (Escape.markdown_spelled s ahead) c member with inside | rfl
      · exact spaced.1 c inside blank
      · exact absurd blank (by decide)

theorem noted_spaced (m : Mark) (data : Chars) (plain : PlainTree (.text m data)) :
    Spaced (m.shown.getD (Whitespace.squeeze data)) := by
  cases shown : m.shown with
  | none => exact Whitespace.squeeze_spaced false data
  | some noted => exact plain noted shown

mutual

theorem texts_spaced (n : Marked) (plain : PlainTree n) : ∀ s ∈ texts n, Spaced s := by
  cases n with
  | text m data => simpa [texts] using noted_spaced m data plain
  | comment m data => simp [texts]
  | document m ks => exact plain.elim
  | element m t a ks =>
      rw [texts]
      split
      · simpa using space_spaced _
      · exact texts_of_spaced ks plain.2

theorem texts_of_spaced (ks : List Marked) (plain : PlainTrees ks) : ∀ s ∈ textsOf ks, Spaced s := by
  cases ks with
  | nil => simp [textsOf]
  | cons n rest =>
      intro s member
      rcases List.mem_append.mp member with here | later
      · exact texts_spaced n plain.1 s here
      · exact texts_of_spaced rest plain.2 s later

end

theorem space_of_written (texts ws : List Chars) (written : Escape.Written texts ws) :
    spaceOf ws.flatten = spaceOf texts.flatten := by
  rw [spaceOf, spaceOf, Escape.written_head texts ws written, Escape.written_last texts ws written]

theorem written_space (t : Chars) (texts ws : List Chars) (written : Escape.Written (t :: texts) ws)
    (begins : t.head? = some ' ') : ws.flatten.head? = some ' ' := by
  obtain ⟨rest, rfl⟩ := List.head?_eq_some_iff.mp begins
  cases written with
  | cons _ ahead _ ws _ =>
      have head := Escape.spelled_gap true ' ' rest _ (Escape.markdown_spelled (' ' :: rest) ahead) rfl
      simp [head]

theorem space_written (s : Chars) : Escape.Written [spaceOf s] [spaceOf s] := by
  have plain (t : Chars) (blank : t = [] ∨ t = [' ']) : Escape.markdown t [] = t := by
    rcases blank with rfl | rfl <;> rfl
  have written := Escape.Written.cons (spaceOf s) [] [] [] .nil
  rwa [plain] at written
  unfold spaceOf
  split
  · exact .inr rfl
  · exact .inl rfl

section

variable (o : Options) (s : State) (inline : o.preformattedCode = false) (uncoded : s.inCode = false)
  (flowing : s.inPreformatted = false)

include inline in
theorem text_noted (m : Mark) (data : Chars) : s.textOf o m data = m.shown.getD (Whitespace.squeeze data) := by
  cases shown : m.shown <;> simp [State.textOf, shown, inline]

include inline uncoded flowing in
theorem text_escaped (opened : List Open) (m : Mark) (data : Chars) :
    ∃ ahead, textOutput s o opened m data = Escape.markdown (m.shown.getD (Whitespace.squeeze data)) ahead := by
  let text := m.shown.getD (Whitespace.squeeze data)
  refine ⟨if text.head? == some '.' then lineSoFar opened else [], ?_⟩
  rw [textOutput, text_noted o s inline, uncoded, flowing]
  rfl

theorem chain_next (ks rest : List Marked) (n : Marked)
    (next : (Site.chain ks).dropWhile Node.isComment = n :: rest) : ∃ others, ks.dropWhile Node.isComment = n :: others := by
  induction ks with
  | nil => cases next
  | cons k ks ih =>
      by_cases silent : Node.isComment k
      · rw [List.dropWhile_cons_of_pos silent]
        rw [Site.chain, List.dropWhile_cons_of_pos silent] at next
        split at next
        · exact ih next
        · cases next
      · rw [List.dropWhile_cons_of_neg silent]
        rw [Site.chain, List.dropWhile_cons_of_neg silent] at next
        exact ⟨ks, by rw [(List.cons.inj next).1]⟩

theorem comments_texts (ks : List Marked) : textsOf (ks.dropWhile Node.isComment) = textsOf ks := by
  induction ks with
  | nil => rfl
  | cons n ks ih =>
      cases n with
      | comment m data => exact ih
      | text | element | document => rfl

theorem next_text (read : ∀ m data, s.textOf o m data = m.shown.getD (Whitespace.squeeze data)) (head : Head)
    (path : List Step) (before ks : List Marked) (n : Marked)
    (level : ∀ k ∈ ks, Node.isBlock k = false ∧ k.tag ≠ "br")
    (next : s.nextStartsWithSpace o ⟨n, Site.pathTo head path before ks n⟩ = true) :
    ∃ m data rest, ks.dropWhile Node.isComment = .text m data :: rest ∧
      (m.shown.getD (Whitespace.squeeze data)).head? = some ' ' := by
  have following : Site.following ⟨n, Site.pathTo head path before ks n⟩ =
      if n.mark.adopted then Site.chain ks else [] := by
    unfold Site.pathTo
    split <;> rfl
  have adopted : n.mark.adopted = true := by
    cases lost : n.mark.adopted with
    | true => rfl
    | false => simp [State.nextStartsWithSpace, following, lost] at next
  rw [State.nextStartsWithSpace, following, if_pos adopted] at next
  split at next
  · rename_i m data rest found
    obtain ⟨after, shape⟩ := chain_next ks rest _ found
    rw [read] at next
    exact ⟨m, data, after, shape, by simpa using next⟩
  · rename_i m t a below rest found
    obtain ⟨after, shape⟩ := chain_next ks rest _ found
    have listed : .element m t a below ∈ ks := (List.dropWhile_sublist _).mem (by rw [shape]; exact List.mem_cons_self)
    obtain ⟨block, broken⟩ := level _ listed
    have other : isBlockTag t = false := block
    have unbroken : t ≠ "br" := broken
    simp [other, unbroken] at next
  · cases next

theorem plain_level (ks : List Marked) (plain : PlainTrees ks) : ∀ k ∈ ks, Node.isBlock k = false ∧ k.tag ≠ "br" := by
  induction ks with
  | nil => simp
  | cons n rest ih =>
      rw [List.forall_mem_cons]
      refine ⟨?_, ih plain.2⟩
      cases n with
      | text | comment => exact ⟨rfl, by simp [Node.tag]⟩
      | document m ks => exact plain.1.elim
      | element m t a ks => exact ⟨plain.1.1.inline, plain_other t a plain.1.1 "br" (by decide)⟩

include inline in
theorem next_space (head : Head) (path : List Step) (before ks : List Marked) (n : Marked) (plain : PlainTrees ks)
    (next : s.nextStartsWithSpace o ⟨n, Site.pathTo head path before ks n⟩ = true) :
    ∃ t more, textsOf ks = t :: more ∧ t.head? = some ' ' := by
  obtain ⟨m, data, after, shape, begins⟩ := next_text o s (text_noted o s inline) head path before ks n
    (plain_level ks plain) next
  rw [← comments_texts, shape]
  exact ⟨_, textsOf after, rfl, begins⟩

theorem inline_replacement (m : Mark) (t : String) (a : Attrs) (ks : List Marked) (path : List Step)
    (level : isBlockTag t = false) (core : Chars) :
    (if m.blank then Rule.blank else Rule.default).replacement core ⟨.element m t a ks, path⟩ o s =
      .ok (if m.blank then [] else core) s := by
  have block : Node.isBlock (.element m t a ks) = false := level
  have dropped : Rule.blankReplacement core ⟨.element m t a ks, path⟩ o s =
      .ok (if Node.isBlock (.element m t a ks) then ['\n', '\n'] else []) s := rfl
  have kept : Rule.defaultReplacement core ⟨.element m t a ks, path⟩ o s =
      .ok (if Node.isBlock (.element m t a ks) then Block.apart core else core) s := rfl
  cases m.blank with
  | true => exact dropped.trans (by rw [block]; rfl)
  | false => exact kept.trans (by rw [block]; rfl)

theorem replace_framed (m : Mark) (t : String) (a : Attrs) (ks : List Marked) (path : List Step)
    (level : isBlockTag t = false)
    (prose : (o.preformattedCode && Site.isCode ⟨.element m t a ks, path⟩) = false) (output content : Chars) :
    replace (if m.blank then Rule.blank else Rule.default) ⟨.element m t a ks, path⟩ o content output s =
      .ok (framed m.blank (!(Whitespace.flanking content).2.2.isEmpty &&
        s.nextStartsWithSpace o ⟨.element m t a ks, path⟩) output content) s := by
  have written := inline_replacement o s m t a ks path level (Whitespace.flanking content).2.1
  rw [replace_inner _ ⟨.element m t a ks, path⟩ o level prose content output _ s s written]
  rfl

end

section

variable (o : Options) (inline : o.preformattedCode = false)

-- What is known of an element that is passed on the way.
structure Passed (t : String) (site : Site) (s inner : State) : Prop where
  entered : enter o site s = .ok () inner
  left : leave o site inner = .ok () s
  flowing : s.inPreformatted = false → inner.inPreformatted = false
  coded : t ≠ "code" → inner = s

theorem inline_passed (m : Mark) (t : String) (a : Attrs) (ks : List Marked) (path : List Step) (s : State)
    (level : isBlockTag t = false) :
    Passed o t ⟨.element m t a ks, path⟩ s (opened o ⟨.element m t a ks, path⟩ s) := by
  have other (name : String) (block : isBlockTag name = true) : t ≠ name := by
    rintro rfl
    rw [block] at level
    cases level
  have list := other "ol" (by decide)
  have bullets := other "ul" (by decide)
  have item := other "li" (by decide)
  have quote := other "blockquote" (by decide)
  have pre := other "pre" (by decide)
  have fits : needsEndlessMarker ⟨.element m t a ks, path⟩ = false := by simp [needsEndlessMarker, list, item]
  have change : opened o ⟨.element m t a ks, path⟩ s =
      if t = "code" then { s with codeDepth := s.codeDepth + 1 } else s := by
    by_cases code : t = "code"
    · simp [opened, Site.tag, Node.tag, code]
    · simp [opened, Site.tag, Node.tag, code]
  refine ⟨?_, leave_opened o _ s, ?_, ?_⟩
  · rw [enter_eq, fits, if_neg Bool.false_ne_true]
  · intro flowing
    rw [change]
    split
    · exact flowing
    · exact flowing
  · intro code
    rw [change, if_neg code]

theorem inline_found (m : Mark) (t : String) (a : Attrs) (ks : List Marked) (path : List Step)
    (plain : m.blank = false → Plain t a) :
    ({} : RuleTable).find ⟨.element m t a ks, path⟩ o m.blank = .ok (if m.blank then Rule.blank else Rule.default) := by
  cases blank : m.blank with
  | true => rfl
  | false => simp [RuleTable.find, plain_unclaimed o m t a ks path (plain blank)]

theorem plain_passed (m : Mark) (t : String) (a : Attrs) (ks : List Marked) (path : List Step) (s : State)
    (plain : Plain t a) : Passed o t ⟨.element m t a ks, path⟩ s s := by
  have passed := inline_passed o m t a ks path s plain.inline
  rwa [passed.coded (plain_other t a plain "code" (by decide))] at passed

theorem inline_written (outer : List Open) (isBlock : Bool) (path : List Step) (output : Chars) (m : Mark) (t : String)
    (a : Attrs) (ks : List Marked) (s inner : State) (level : isBlockTag t = false)
    (prose : (o.preformattedCode && Site.isCode ⟨.element m t a ks, path⟩) = false)
    (found : ({} : RuleTable).find ⟨.element m t a ks, path⟩ o m.blank =
      .ok (if m.blank then Rule.blank else Rule.default))
    (passed : Passed o t ⟨.element m t a ks, path⟩ s inner) (content : Chars)
    (rendered : nodes {} o (⟨output, isBlock⟩ :: outer) (isBlockTag t) (.element m t a) path [] [] ks inner =
      .ok content inner) :
    ∃ dropped, node {} o outer isBlock path output (.element m t a ks) s =
        .ok (join output (framed m.blank dropped output content)) s ∧
      (dropped = true → inner.nextStartsWithSpace o ⟨.element m t a ks, path⟩ = true) := by
  have replaced := replace_framed o inner m t a ks path level prose output content
  have children : (if m.blank then Rule.blank else Rule.default).rendersChildren = true := by
    cases m.blank <;> rfl
  refine ⟨!(Whitespace.flanking content).2.2.isEmpty && inner.nextStartsWithSpace o ⟨.element m t a ks, path⟩, ?_,
    fun gone => ((Bool.and_eq_true _ _).mp gone).2⟩
  exact node_replaced {} o outer isBlock path output m t a ks _ content _ found children passed.entered rendered replaced
    passed.left

end

theorem framed_written (blank dropped : Bool) (output content next : Chars) (ws : List Chars)
    (alike : Whitespace.Alike content ([] ++ ws.flatten)) (clean : Spaced content) (solid : Spaced ws.flatten)
    (follows : dropped = true → next.head? = some ' ') :
    Whitespace.Alike (output ++ framed blank dropped output content ++ next)
      (output ++ (if blank then [spaceOf ws.flatten] else ws).flatten ++ next) := by
  have same := framed_alike blank dropped output content next follows
  refine Whitespace.alike_trans _ _ _ same ?_
  rw [List.nil_append] at alike
  cases blank with
  | true =>
      rw [if_pos rfl, if_pos rfl, space_alike content ws.flatten alike clean solid]
      simpa using Whitespace.alike_refl _
  | false => exact Whitespace.alike_append _ _ _ _ (Whitespace.alike_append _ _ _ _ rfl alike) rfl

-- The trailing gap of an element may be left to a space that comes next, so what an element adds is only
-- told together with what is written after it.
mutual

theorem node_written (o : Options) (s : State) (inline : o.preformattedCode = false) (uncoded : s.inCode = false)
    (flowing : s.inPreformatted = false) (outer : List Open) (isBlock : Bool) (path : List Step) (output : Chars)
    (n : Marked) (plain : PlainTree n) (spaced : Spaced output) :
    ∃ out ws, node {} o outer isBlock path output n s = .ok out s ∧ Spaced out ∧ Escape.Written (texts n) ws ∧
      ∀ next, (s.nextStartsWithSpace o ⟨n, path⟩ = true → next.head? = some ' ') →
        Whitespace.Alike (out ++ next) (output ++ ws.flatten ++ next) := by
  cases n with
  | text m data =>
      obtain ⟨ahead, escaped⟩ := text_escaped o s inline uncoded flowing (⟨output, isBlock⟩ :: outer) m data
      have written := Escape.Written.cons (m.shown.getD (Whitespace.squeeze data)) ahead [] [] .nil
      have clean := spaced_written _ _ written (by simpa using noted_spaced m data plain)
      rw [List.flatten_cons, List.flatten_nil, List.append_nil] at clean
      refine ⟨_, _, rfl, ?_, written, ?_⟩
      · rw [escaped, join_free _ _ (spaced_newline _ spaced) (spaced_newline _ clean)]
        exact spaced_append _ _ spaced clean
      · intro next _
        rw [escaped, join_free _ _ (spaced_newline _ spaced) (spaced_newline _ clean)]
        simpa using Whitespace.alike_refl _
  | comment m data => exact ⟨output, [], rfl, spaced, .nil, fun next _ => by simpa using Whitespace.alike_refl _⟩
  | document m ks => exact plain.elim
  | element m t a ks =>
      obtain ⟨named, below⟩ := plain
      obtain ⟨content, ws, rendered, clean, written, alike⟩ := nodes_written o s inline uncoded flowing
        (⟨output, isBlock⟩ :: outer) (isBlockTag t) (.element m t a) path [] [] ks below (by simp [Spaced])
      obtain ⟨dropped, finished, next⟩ := inline_written o outer isBlock path output m t a ks s s named.inline
        (by rw [inline]; rfl) (inline_found o m t a ks path fun _ => named) (plain_passed o m t a ks path s named)
        content rendered
      have framing := framed_spaced m.blank dropped output content clean
      refine ⟨_, if m.blank then [spaceOf ws.flatten] else ws, finished, ?_, ?_, ?_⟩
      · rw [join_free _ _ (spaced_newline _ spaced) (spaced_newline _ framing)]
        exact spaced_append _ _ spaced framing
      · rw [texts, ← space_of_written _ ws written]
        split
        · exact space_written _
        · exact written
      · intro behind follows
        have solid := spaced_written _ ws written (texts_of_spaced ks below)
        rw [join_free _ _ (spaced_newline _ spaced) (spaced_newline _ framing)]
        exact framed_written m.blank dropped output content behind ws alike clean solid fun gone => follows (next gone)

theorem nodes_written (o : Options) (s : State) (inline : o.preformattedCode = false) (uncoded : s.inCode = false)
    (flowing : s.inPreformatted = false) (outer : List Open) (isBlock : Bool) (head : Head) (path : List Step)
    (before : List Marked) (output : Chars) (ks : List Marked) (plain : PlainTrees ks) (spaced : Spaced output) :
    ∃ out ws, nodes {} o outer isBlock head path before output ks s = .ok out s ∧ Spaced out ∧
      Escape.Written (textsOf ks) ws ∧ Whitespace.Alike out (output ++ ws.flatten) := by
  cases ks with
  | nil => exact ⟨output, [], rfl, spaced, .nil, by simpa using Whitespace.alike_refl _⟩
  | cons n rest =>
      obtain ⟨first, others⟩ := plain
      obtain ⟨out, ws, rendered, clean, written, adds⟩ := node_written o s inline uncoded flowing outer isBlock
        (Site.pathTo head path before rest n) output n first spaced
      obtain ⟨final, vs, finished, tidy, later, alike⟩ := nodes_written o s inline uncoded flowing outer isBlock head
        path (n :: before) out rest others clean
      refine ⟨final, ws ++ vs, ?_, tidy, Escape.written_append _ _ _ _ written later, ?_⟩
      · rw [nodes]
        simp only [bind, EStateM.bind, rendered, finished]
      · have follows := adds vs.flatten (fun next => by
          obtain ⟨t, more, shape, begins⟩ := next_space o s inline head path before rest n others next
          rw [shape] at later
          exact written_space t more vs later begins)
        refine Whitespace.alike_trans _ _ _ alike ?_
        simpa [List.append_assoc] using follows

end

def paragraphRule : Rule := { name := "paragraph", filter := .tags ["p"], replacement := Block.paragraph }

def breakRule : Rule := { name := "line-break", filter := .tags ["br"], replacement := Block.lineBreak }

theorem paragraph_joined (o : Options) (s : State) {u : State} (outer : List Open) (isBlock : Bool) (output : Chars)
    (m : Mark) (a : Attrs) (ks : List Marked) (path : List Step) (content : Chars)
    (rendered : nodes {} o (⟨output, isBlock⟩ :: outer) true (.element m "p" a) path [] [] ks s = .ok content u) :
    node {} o outer isBlock path output (.element m "p" a ks) s =
      .ok (join output (if m.blank then ['\n', '\n'] else Block.apart content)) u := by
  have found : ({} : RuleTable).find ⟨.element m "p" a ks, path⟩ o m.blank =
      .ok (if m.blank then Rule.blank else paragraphRule) := by
    cases m.blank <;> rfl
  refine container_written {} o outer isBlock path output m "p" a ks _ s s content _ (by decide) found ?_ rfl rendered
    ?_ rfl
  · cases m.blank <;> rfl
  · cases m.blank <;> rfl

theorem paragraph_written (o : Options) (inline : o.preformattedCode = false) (s : State) (uncoded : s.inCode = false)
    (flowing : s.inPreformatted = false) (m : Mark) (a : Attrs) (ks : List Marked) (plain : PlainTrees ks) :
    ∃ out, node {} o [] true [] [] (.element m "p" a ks) s = .ok out s ∧
      (Escape.exposedFrom false out = true ↔ Escape.Crosses (texts (.element m "p" a ks))) := by
  obtain ⟨content, ws, rendered, -, written, alike⟩ := nodes_written o s inline uncoded flowing [⟨[], true⟩] true
    (.element m "p" a) [] [] [] ks plain (by simp [Spaced])
  refine ⟨_, paragraph_joined o s [] true [] m a ks [] content rendered, ?_⟩
  rw [Escape.exposed_join, texts]
  cases m.blank with
  | true =>
      rw [if_pos rfl, if_pos rfl, ← Escape.written_exposes _ _ (space_written _), List.flatten_cons,
        List.flatten_nil, List.append_nil, Escape.quiet_hidden false (spaceOf _)]
      · rfl
      · exact fun c member => Escape.collapsible_quiet c (Whitespace.gap_collapsible c (space_gap _ c member))
  | false =>
      rw [List.nil_append] at alike
      rw [if_neg (by simp), if_neg (by simp), Escape.exposed_apart, Escape.exposed_alike content _ alike,
        Escape.written_exposes _ ws written]

theorem paragraph_site {table : RuleTable} (o : Options) (a : Attrs) (ks : List Tree) (m : Mark) (below : List Marked)
    (started : State) (out : Chars)
    (prepared : prepare o (Site.ofTree (.element () "p" a ks)).node = .element m "p" a below)
    (beginning : started = { log := [.renderStarted "Element" table.count] })
    (rendered : node table o [] true [] [] (.element m "p" a below) started = .ok out started) :
    site table o (Site.ofTree (.element () "p" a ks)) {} =
      .ok (Text.trimEnd Text.isBlank (Text.trimStart isLineStart out)) started := by
  subst beginning
  have top : root table o (Site.ofTree (.element () "p" a ks)) =
      node table o [] true [] [] (.element m "p" a below) := by
    have home : rootOf (Site.ofTree (.element () "p" a ks)) = Site.ofTree (.element () "p" a ks) := rfl
    simp only [root, home, Site.prepared, prepared]
    rfl
  have noted : noteRendering (.renderStarted (Site.ofTree (.element () "p" a ks)).node.kind table.count) {} =
      .ok () { log := [.renderStarted "Element" table.count] } := rfl
  unfold site
  simp only [bind, EStateM.bind, noted, top, rendered]
  rfl

theorem paragraph_exposes_iff (o : Options) (inline : o.preformattedCode = false) (a : Attrs) (ks : List Tree)
    (literal : ∀ below ∈ (Site.ofTree (.element () "p" a ks)).all.tail, Literal o below) :
    ∃ out s, site {} o (Site.ofTree (.element () "p" a ks)) {} = .ok out s ∧
      ((∀ before c after, out = before ++ c :: after → Escape.OpensMarkup c after → Escape.Shielded before) ↔
        ¬ Escape.Crosses (texts (prepare o (Site.ofTree (.element () "p" a ks)).node))) := by
  have trees : PlainTrees (Node.mapAllMarks unmarked ks) := by
    have outside : (Head.element (unmarked ()) "p" a).tag ≠ "pre" := by simp [Head.tag]
    exact literal_trees o _ [] [] ks outside literal
  obtain ⟨m, below, prepared, plain⟩ := paragraph_prepared o (unmarked ()) a _ trees
  have shape : prepare o (Site.ofTree (.element () "p" a ks)).node = .element m "p" a below := prepared
  let started : State := { log := [.renderStarted "Element" ({} : RuleTable).count] }
  obtain ⟨out, rendered, exposes⟩ := paragraph_written o inline started rfl rfl m a below plain
  refine ⟨_, started, paragraph_site o a ks m below started out shape rfl rendered, ?_⟩
  rw [shape, ← exposes, ← Escape.exposed_finish, Escape.exposed_iff]
  constructor
  · rintro shielded ⟨before, c, after, place, opens, bare⟩
    exact bare (shielded before c after place opens)
  · intro hidden before c after place opens
    exact Classical.byContradiction fun bare => hidden ⟨before, c, after, place, opens, bare⟩

def splitTag : List Tree := [.element () "span" [] [.text () ['<']], .text () ['b']]

theorem split_tag_literal : ∀ below ∈ (Site.ofTree (.element () "p" [] splitTag)).all.tail, Literal {} below := by
  intro below member
  rcases List.mem_cons.mp member with rfl | texts
  · exact ⟨by decide, by decide, rfl⟩
  · rcases List.mem_cons.mp texts with rfl | last
    · trivial
    · rcases List.mem_cons.mp last with rfl | none
      · trivial
      · cases none

theorem split_tag_exposed : ¬ ∀ (o : Options) (a : Attrs) (ks : List Tree), o.preformattedCode = false →
    (∀ below ∈ (Site.ofTree (.element () "p" a ks)).all.tail, Literal o below) →
    ∀ out s, site {} o (Site.ofTree (.element () "p" a ks)) {} = .ok out s →
    ∀ before c after, out = before ++ c :: after → Escape.OpensMarkup c after → Escape.Shielded before := by
  intro claim
  exact Escape.shielded_nil (claim {} [] splitTag rfl split_tag_literal ['<', 'b'] _ rfl [] '<' ['b'] rfl
    (.tag 'b' [] (.inl rfl)))

theorem split_tag_crosses :
    (∃ s, site {} {} (Site.ofTree (.element () "p" [] splitTag)) {} = .ok ['<', 'b'] s) ∧
      Escape.Crosses (texts (prepare {} (Site.ofTree (.element () "p" [] splitTag)).node)) := by
  obtain ⟨out, s, rendered, exposes⟩ := paragraph_exposes_iff {} rfl [] splitTag split_tag_literal
  have evaluated : site {} {} (Site.ofTree (.element () "p" [] splitTag)) {} = .ok ['<', 'b'] _ := rfl
  obtain ⟨rfl, -⟩ := EStateM.Result.ok.inj (rendered.symm.trans evaluated)
  refine ⟨⟨s, rendered⟩, Classical.byContradiction fun apart => ?_⟩
  have shielded := exposes.mpr apart [] '<' ['b'] rfl (.tag 'b' [] (.inl rfl))
  exact Escape.shielded_nil shielded

end Downmark.Render
