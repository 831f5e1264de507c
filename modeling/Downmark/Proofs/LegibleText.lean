import Downmark.Proofs.SplitText
import Downmark.Proofs.TreeGlyphs
import Downmark.Proofs.Unescaped
import Downmark.Proofs.BlockTexts
/-!
Text that is read back from a paragraph. Rendering escapes texts one by one, moves gaps out of elements and drops
them where there is one already; reading it back gives the text of the paragraph. Main statement: it does so, but
for white space at its ends, just if no blank element hides anything between two characters that are seen.
-/

set_option autoImplicit false

namespace Downmark.Render

open Glyph Whitespace

-- Some output from which just what is shown of some glyphs is read.
structure Tells (output : Chars) (gs : List Glyph) : Prop where
  spaced : Spaced output
  read : ∃ s, Escape.Reads output s ∧ Shows gs s

-- A text as collapsing leaves it.
structure Fluent (gs : List Glyph) : Prop where
  spaced : Spaced (chars gs)
  tight : Tight (chars gs)

theorem tells_nil : Tells [] [] := ⟨by simp [Spaced], [], .nil, shows_clean [] (by simp)⟩

theorem fluent_same (gs hs : List Glyph) (fluent : Fluent gs) (same : chars hs = chars gs) : Fluent hs := by
  obtain ⟨spaced, tight⟩ := fluent
  exact ⟨by rwa [same], by rwa [same]⟩

theorem fluent_part (before gs after : List Glyph) (fluent : Fluent (before ++ gs ++ after)) : Fluent gs := by
  obtain ⟨spaced, tight⟩ := fluent
  rw [chars_append, chars_append] at spaced tight
  refine ⟨fun c member => spaced c (by simp [member]), ?_⟩
  intro front back whole
  exact tight (chars before ++ front) (back ++ chars after) (by rw [whole]; simp)

-- A space comes next, so there is none at the end.
theorem fluent_ends (gs rest : List Glyph) (fluent : Fluent (gs ++ rest)) (next : (chars rest).head? = some ' ') :
    (chars gs).getLast?.any isCollapsible = false := by
  obtain ⟨spaced, tight⟩ := fluent
  rw [chars_append] at spaced tight
  obtain ⟨more, begins⟩ := List.head?_eq_some_iff.mp next
  cases last : (chars gs).getLast? with
  | none => rfl
  | some c =>
      obtain ⟨front, ends⟩ := List.getLast?_eq_some_iff.mp last
      cases blank : isCollapsible c with
      | false => simpa using blank
      | true =>
          obtain rfl := spaced c (by simp [ends]) blank
          exact absurd (by rw [ends, begins]; simp) (tight front more)

theorem gap_unslashed (gap : Chars) (gaps : ∀ c ∈ gap, Text.isGap c) : '\\' ∉ gap :=
  fun member => absurd (gaps '\\' member) (by decide)

theorem blank_free (c : Char) (blank : Text.isBlank c) : Escape.isPunctuation c = false := by
  cases found : Escape.isPunctuation c with
  | false => rfl
  | true =>
      have range := Escape.punctuation_range c found
      simp only [Text.isBlank, Bool.or_eq_true, Bool.and_eq_true, decide_eq_true_iff, beq_iff_eq] at blank
      omega

theorem blank_text_free (s : Chars) (blank : ∀ c ∈ s, Text.isBlank c) : s.head?.any Escape.isPunctuation = false := by
  cases s with
  | nil => rfl
  | cons c s => exact blank_free c (blank c List.mem_cons_self)

theorem reads_spaced (w s : Chars) (reads : Escape.Reads w s) (spaced : Spaced s) : Spaced w := by
  induction reads with
  | nil => simp [Spaced]
  | plain c w s _ _ ih =>
      intro d member blank
      rcases List.mem_cons.mp member with rfl | later
      · exact spaced d List.mem_cons_self blank
      · exact ih (fun e inside => spaced e (List.mem_cons_of_mem c inside)) d later blank
  | slashed c w s _ _ ih =>
      intro d member blank
      rcases List.mem_cons.mp member with rfl | next
      · exact absurd blank (by decide)
      · rcases List.mem_cons.mp next with rfl | later
        · exact spaced d List.mem_cons_self blank
        · exact ih (fun e inside => spaced e (List.mem_cons_of_mem c inside)) d later blank

theorem flanking_read (content s : Chars) (reads : Escape.Reads content s) :
    ∃ core, s = (flanking content).1 ++ core ++ (flanking content).2.2 ∧
      Escape.Reads (flanking content).2.1 core := by
  have parts := flanking_whole content
  obtain ⟨before, after⟩ := flanking_gaps content
  generalize flanking content = split at parts before after ⊢
  obtain ⟨leading, core, trailing⟩ := split
  simp only at parts before after ⊢
  subst parts
  rw [List.append_assoc] at reads
  obtain ⟨rest, rfl, inner⟩ := Escape.reads_behind leading _ s reads (gap_unslashed leading before)
  have blank (c : Char) (member : c ∈ trailing) := collapsible_blank c (gap_collapsible c (after c member))
  obtain ⟨t, u, rfl, first, last⟩ := Escape.reads_cut core trailing rest inner (blank_text_free trailing blank)
  rw [← List.append_nil trailing] at last
  obtain ⟨v, rfl, nothing⟩ := Escape.reads_behind trailing [] u last (gap_unslashed trailing after)
  cases nothing
  exact ⟨t, by simp, first⟩

theorem shows_seam (gs : List Glyph) (s gap t : Chars) (shows : Shows gs (s ++ (gap ++ t)))
    (gaps : ∀ c ∈ gap, Text.isGap c) (fluent : Fluent gs) :
    Shows gs (s ++ ((if endsInGap s then [] else gap) ++ t)) := by
  split
  · rename_i ends
    rw [ends_in_gap] at ends
    cases last : s.getLast? with
    | none => simp [last] at ends
    | some c =>
        obtain ⟨front, rfl⟩ := List.getLast?_eq_some_iff.mp last
        rw [last] at ends
        exact shows_behind gs front gap t c shows (gap_collapsible c (by simpa using ends))
          (fun d member => gap_collapsible d (gaps d member)) fluent.spaced fluent.tight
  · exact shows

theorem shows_framed (gs hs : List Glyph) (s leading core trailing : Chars) (dropped : Bool) (before : Shows gs s)
    (inner : Shows hs (leading ++ core ++ trailing)) (gaps : ∀ c ∈ leading, Text.isGap c)
    (others : ∀ c ∈ trailing, Text.isGap c) (fluent : Fluent (gs ++ hs))
    (ends : dropped = true → (chars (gs ++ hs)).getLast?.any isCollapsible = false) :
    Shows (gs ++ hs) (s ++ ((if endsInGap s then [] else leading) ++ core ++ (if dropped then [] else trailing))) := by
  have whole := shows_append gs hs s _ before inner
  have shortened : Shows (gs ++ hs) (s ++ (leading ++ (core ++ (if dropped then [] else trailing)))) := by
    cases dropped with
    | false => simpa using whole
    | true =>
        rw [if_pos rfl, List.append_nil]
        refine shows_end _ _ trailing ?_ (fun c member => gap_collapsible c (others c member)) (ends rfl)
        simpa using whole
  rw [List.append_assoc]
  exact shows_seam _ s leading _ shortened gaps fluent

-- Of a blank element only its gaps are left. They are all of its text if none of it is lost.
theorem shows_gaps (gs : List Glyph) (leading core trailing : Chars) (shows : Shows gs (leading ++ core ++ trailing))
    (gaps : ∀ c ∈ leading, Text.isGap c) (others : ∀ c ∈ trailing, Text.isGap c)
    (filled : (∀ c ∈ leading ++ core ++ trailing, isCollapsible c) → core = []) :
    Shows (hide gs) (leading ++ [] ++ trailing) := by
  have collapsible (g : Glyph) (member : g ∈ hide gs) (kept : g.isLost = false) : isCollapsible g.char := by
    obtain ⟨h, -, rfl⟩ := List.mem_map.mp member
    simpa [isLost, isSolid] using kept
  by_cases clean : ∀ g ∈ hide gs, g.isLost = false
  · have same : leading ++ core ++ trailing = chars gs := by
      have kept (g : Glyph) (member : g ∈ gs) : g.isLost = false := by
        have blank := collapsible _ (List.mem_map_of_mem member) (clean _ (List.mem_map_of_mem member))
        simp [isLost, isSolid, show isCollapsible g.char = true from blank]
      obtain ⟨u, w, whole, left, right⟩ := shows.stretch [] gs [] (by simp) ⟨kept, .inl rfl, .inl rfl⟩
      rw [whole, left.empty rfl, right.empty rfl, List.nil_append, List.append_nil]
    have nothing : core = [] := by
      refine filled fun c member => ?_
      rw [same, ← Node.hide_chars] at member
      obtain ⟨g, inside, rfl⟩ := List.mem_map.mp member
      exact collapsible g inside (clean g inside)
    rw [nothing] at same
    rw [same, ← Node.hide_chars]
    exact shows_clean (hide gs) clean
  · refine shows_murky (hide gs) _ ?_ ?_ ?_
    · intro g member
      obtain ⟨h, -, rfl⟩ := List.mem_map.mp member
      simp [isAnchor]
    · simpa using clean
    · refine ink_empty _ fun c member => gap_collapsible c ?_
      rw [List.append_nil] at member
      exact (List.mem_append.mp member).elim (gaps c) (others c)

theorem flanking_blank (content : Chars) (spaced : Spaced content) (blank : ∀ c ∈ content, isCollapsible c) :
    (flanking content).2.1 = [] := by
  refine flanking_bare content fun c member => ?_
  obtain rfl := spaced c member (blank c member)
  rfl

theorem framed_tells (blank dropped : Bool) (output content : Chars) (gs hs : List Glyph) (before : Tells output gs)
    (inner : Tells content hs) (fluent : Fluent (gs ++ hs))
    (ends : dropped = true → (chars (gs ++ hs)).getLast?.any isCollapsible = false) :
    Tells (output ++ framed blank dropped output content) (gs ++ if blank then hide hs else hs) := by
  obtain ⟨clean, s, reads, shows⟩ := before
  obtain ⟨tidy, t, read, shown⟩ := inner
  obtain ⟨core, rfl, within⟩ := flanking_read content t read
  obtain ⟨gaps, others⟩ := flanking_gaps content
  refine ⟨spaced_append _ _ clean (framed_spaced blank dropped output content tidy), ?_⟩
  have ending : endsInGap output = endsInGap s := by
    rw [ends_in_gap, ends_in_gap, Escape.reads_last output s reads]
  have plain (gap : Chars) (blank : ∀ c ∈ gap, Text.isGap c) : Escape.Reads gap gap :=
    Escape.reads_self gap (gap_unslashed gap blank)
  have left : Escape.Reads (if endsInGap output then [] else (flanking content).1)
      (if endsInGap s then [] else (flanking content).1) := by
    rw [ending]
    split
    · exact .nil
    · exact plain _ gaps
  have right : Escape.Reads (if dropped then [] else (flanking content).2.2)
      (if dropped then [] else (flanking content).2.2) := by
    split
    · exact .nil
    · exact plain _ others
  have same : chars (gs ++ if blank then hide hs else hs) = chars (gs ++ hs) := by
    rw [chars_append, chars_append]
    split
    · rw [Node.hide_chars]
    · rfl
  have still := fluent_same _ _ fluent same
  have around (written read : Chars) (middle : Escape.Reads written read) :=
    Escape.reads_append _ _ _ _ reads (Escape.reads_append _ _ _ _ (Escape.reads_append _ _ _ _ left middle) right)
  cases blank with
  | false =>
      exact ⟨_, around _ core within,
        shows_framed gs hs s _ core _ dropped shows shown gaps others fluent ends⟩
  | true =>
      have hidden := shows_gaps hs _ core _ shown gaps others fun blank => by
        have unmarked := Escape.reads_unmarked _ core within fun c member =>
          blank_free c (collapsible_blank c (blank c (by simp [member])))
        rw [← unmarked]
        refine flanking_blank content tidy fun c member => blank c ?_
        rw [← unmarked, flanking_whole]
        exact member
      exact ⟨_, around [] [] .nil,
        shows_framed gs (hide hs) s _ [] _ dropped shows hidden gaps others still
          fun gone => (congrArg (fun s => s.getLast?.any isCollapsible) same).trans (ends gone)⟩

section

variable (o : Options) (inline : o.preformattedCode = false)

include inline in
theorem text_tells (s : State) (flowing : s.inPreformatted = false) (opened : List Open) (m : Mark) (data : Chars)
    (output : Chars) (gs : List Glyph) (tells : Tells output gs) (spaced : Spaced (shown m data))
    (coded : s.inCode = true → ∀ c ∈ shown m data, Text.isBlank c) :
    Tells (join output (textOutput s o opened m data)) (gs ++ Node.glyphs shown (.text m data)) := by
  have reads : Escape.Reads (textOutput s o opened m data) (shown m data) := by
    cases inside : s.inCode with
    | false =>
        obtain ⟨ahead, escaped⟩ := text_escaped o s inline inside flowing opened m data
        rw [escaped]
        exact Escape.markdown_reads _ ahead
    | true =>
        have plain : textOutput s o opened m data = shown m data := by
          rw [textOutput, inside, if_pos rfl, text_noted o s inline]
          rfl
        rw [plain]
        exact Escape.reads_self _ fun slash => absurd (coded inside '\\' slash) (by decide)
  obtain ⟨clean, t, read, shows⟩ := tells
  have tidy := reads_spaced _ _ reads spaced
  have visible := shows_clean (Node.glyphs shown (.text m data)) fun g member => by
    obtain ⟨c, -, rfl⟩ := List.mem_map.mp member
    rfl
  rw [Node.glyphs, Node.text_chars] at visible
  rw [join_free _ _ (spaced_newline _ clean) (spaced_newline _ tidy)]
  exact ⟨spaced_append _ _ clean tidy, _, Escape.reads_append _ _ _ _ read reads, shows_append _ _ _ _ shows visible⟩

theorem phrasing_level (ks : List Marked) (phrasing : Node.PhrasingAll ks) :
    ∀ k ∈ ks, Node.isBlock k = false ∧ k.tag ≠ "br" := by
  induction ks with
  | nil => simp
  | cons n rest ih =>
      rw [List.forall_mem_cons]
      refine ⟨?_, ih phrasing.2⟩
      cases n with
      | text | comment => exact ⟨rfl, by simp [Node.tag]⟩
      | document m ks => exact phrasing.1.elim
      | element m t a ks =>
          obtain ⟨level, filled, -⟩ := phrasing.1
          refine ⟨level, ?_⟩
          rintro rfl
          exact absurd filled (by decide)

include inline in
theorem next_glyph (s : State) (head : Head) (path : List Step) (before ks : List Marked) (n : Marked)
    (phrasing : Node.PhrasingAll ks)
    (next : s.nextStartsWithSpace o ⟨n, Site.pathTo head path before ks n⟩ = true) :
    (chars (Node.glyphsOf shown ks)).head? = some ' ' := by
  obtain ⟨m, data, after, shape, begins⟩ := next_text o s (text_noted o s inline) head path before ks n
    (phrasing_level ks phrasing) next
  have silent (ks : List Marked) : Node.glyphsOf shown (ks.dropWhile Node.isComment) = Node.glyphsOf shown ks := by
    induction ks with
    | nil => rfl
    | cons k ks ih =>
        cases k with
        | comment m data => exact ih
        | text | element | document => rfl
  obtain ⟨rest, whole⟩ := List.head?_eq_some_iff.mp begins
  rw [← silent, shape, Node.glyphsOf, Node.glyphs, chars_append, Node.text_chars]
  have same : shown m data = ' ' :: rest := whole
  rw [same]
  rfl

end

-- What is known of some glyphs that are written next.
structure Legible (s : State) (gs : List Glyph) : Prop where
  white : ∀ g ∈ gs, g.hidden → g.isSeen = false
  coded : s.inCode = true → ∀ c ∈ chars gs, Text.isBlank c

theorem legible_part (s : State) (gs hs : List Glyph) (legible : Legible s gs) (part : ∀ g ∈ hs, g ∈ gs) :
    Legible s hs := by
  refine ⟨fun g member => legible.white g (part g member), fun inside c member => ?_⟩
  obtain ⟨g, listed, rfl⟩ := List.mem_map.mp member
  exact legible.coded inside _ (List.mem_map_of_mem (part g listed))

theorem element_glyphs (m : Mark) (t : String) (a : Attrs) (ks : List Marked)
    (flagged : Node.Flagged (.element m t a ks)) : Node.glyphs shown (.element m t a ks) =
      if m.blank then hide (Node.glyphsOf shown ks) else Node.glyphsOf shown ks := by
  rw [Node.glyphs, Node.element_blank _ rfl, flagged.1]

-- Code is only entered where it is blank, and then there is nothing to escape.
theorem legible_inside (m : Mark) (t : String) (a : Attrs) (ks : List Marked) (s inner : State)
    (flagged : Node.Flagged (.element m t a ks)) (plain : m.blank = false → Plain t a)
    (legible : Legible s (Node.glyphs shown (.element m t a ks))) (coded : t ≠ "code" → inner = s) :
    Legible inner (Node.glyphsOf shown ks) := by
  rw [element_glyphs m t a ks flagged] at legible
  cases blank : m.blank with
  | false =>
      rw [blank, if_neg Bool.false_ne_true] at legible
      rw [coded (plain_other t a (plain blank) "code" (by decide))]
      exact legible
  | true =>
      rw [blank, if_pos rfl] at legible
      have unseen (g : Glyph) (member : g ∈ Node.glyphsOf shown ks) : g.isSeen = false :=
        legible.white { g with hidden := true } (List.mem_map_of_mem member) rfl
      refine ⟨fun g member _ => unseen g member, fun _ c member => ?_⟩
      obtain ⟨g, listed, rfl⟩ := List.mem_map.mp member
      simpa [Glyph.isSeen] using unseen g listed

mutual

theorem node_tells (o : Options) (inline : o.preformattedCode = false) (s : State) (flowing : s.inPreformatted = false)
    (outer : List Open) (isBlock : Bool) (path : List Step) (output : Chars) (n : Marked) (phrasing : Node.Phrasing n)
    (flagged : Node.Flagged n) (gs rest : List Glyph) (tells : Tells output gs)
    (fluent : Fluent (gs ++ Node.glyphs shown n ++ rest)) (legible : Legible s (Node.glyphs shown n))
    (follows : ∀ s' : State, s'.nextStartsWithSpace o ⟨n, path⟩ = true → (chars rest).head? = some ' ') :
    ∃ out, node {} o outer isBlock path output n s = .ok out s ∧ Tells out (gs ++ Node.glyphs shown n) := by
  cases n with
  | text m data =>
      have text : chars (Node.glyphs shown (.text m data)) = shown m data := Node.text_chars _
      have spaced := (fluent_part gs _ rest fluent).spaced
      have coded := legible.coded
      rw [text] at spaced coded
      exact ⟨_, rfl, text_tells o inline s flowing (⟨output, isBlock⟩ :: outer) m data output gs tells spaced coded⟩
  | comment m data => exact ⟨output, rfl, by rwa [Node.glyphs, List.append_nil]⟩
  | document m ks => exact phrasing.elim
  | element m t a ks =>
      obtain ⟨level, -, seen, below⟩ := phrasing
      have named : m.blank = false → Plain t a := by
        intro solid
        refine seen ?_
        rw [Node.element_blank _ rfl, ← flagged.1]
        exact solid
      have passed := inline_passed o m t a ks path s level
      generalize opened o ⟨.element m t a ks, path⟩ s = inner at passed
      have same := element_glyphs m t a ks flagged
      have text : chars (gs ++ Node.glyphs shown (.element m t a ks)) = chars (gs ++ Node.glyphsOf shown ks) := by
        rw [same, chars_append, chars_append]
        split
        · rw [Node.hide_chars]
        · rfl
      have whole : Fluent (gs ++ Node.glyphsOf shown ks) :=
        fluent_same _ _ (fluent_part [] (gs ++ Node.glyphs shown (.element m t a ks)) rest fluent) text.symm
      have within := fluent_part gs (Node.glyphsOf shown ks) [] (by simpa using whole)
      obtain ⟨content, rendered, told⟩ := nodes_tell o inline inner (passed.flowing flowing)
        (⟨output, isBlock⟩ :: outer) (isBlockTag t) (.element m t a) path [] [] ks below flagged.2 [] tells_nil within
        (legible_inside m t a ks s inner flagged named legible passed.coded)
      obtain ⟨dropped, written, next⟩ := inline_written o outer isBlock path output m t a ks s inner level
        (by rw [inline]; rfl) (inline_found o m t a ks path named) passed content rendered
      refine ⟨_, written, ?_⟩
      have ends (gone : dropped = true) :
          (chars (gs ++ Node.glyphsOf shown ks)).getLast?.any isCollapsible = false := by
        rw [← text]
        exact fluent_ends _ rest fluent (follows inner (next gone))
      have clean := framed_spaced m.blank dropped output content told.spaced
      rw [join_free _ _ (spaced_newline _ tells.spaced) (spaced_newline _ clean), same]
      exact framed_tells m.blank dropped output content gs (Node.glyphsOf shown ks) tells told whole ends

theorem nodes_tell (o : Options) (inline : o.preformattedCode = false) (s : State) (flowing : s.inPreformatted = false)
    (outer : List Open) (isBlock : Bool) (head : Head) (path : List Step) (before : List Marked) (output : Chars)
    (ks : List Marked) (phrasing : Node.PhrasingAll ks) (flagged : Node.FlaggedAll ks) (gs : List Glyph)
    (tells : Tells output gs) (fluent : Fluent (gs ++ Node.glyphsOf shown ks))
    (legible : Legible s (Node.glyphsOf shown ks)) :
    ∃ out, nodes {} o outer isBlock head path before output ks s = .ok out s ∧
      Tells out (gs ++ Node.glyphsOf shown ks) := by
  cases ks with
  | nil => exact ⟨output, rfl, by simpa [Node.glyphsOf] using tells⟩
  | cons n more =>
      rw [Node.glyphsOf] at fluent legible ⊢
      rw [← List.append_assoc] at fluent
      obtain ⟨out, written, told⟩ := node_tells o inline s flowing outer isBlock
        (Site.pathTo head path before more n) output n phrasing.1 flagged.1 gs (Node.glyphsOf shown more) tells fluent
        (legible_part s _ _ legible fun g member => List.mem_append_left _ member)
        (fun s' next => next_glyph o inline s' head path before more n phrasing.2 next)
      obtain ⟨final, finished, tells⟩ := nodes_tell o inline s flowing outer isBlock head path (n :: before) out more
        phrasing.2 flagged.2 (gs ++ Node.glyphs shown n) told fluent
        (legible_part s _ _ legible fun g member => List.mem_append_right _ member)
      refine ⟨final, ?_, by rwa [← List.append_assoc]⟩
      rw [nodes]
      simp only [bind, EStateM.bind, written, finished]

end

end Downmark.Render
