import Downmark.Proofs.Glyphs
import Downmark.Proofs.PreparedBlocks
import Downmark.Proofs.PreparedShape
/-!
The characters of a tree, with those of blank elements hidden. Main statement: preparing a paragraph of phrasing
content settles its text as if it were one, and keeps every solid character where it is.
-/

set_option autoImplicit false

namespace Downmark

open Glyph

namespace Node

variable {μ ν : Type}

-- Texts are as `read` shows them.
mutual

def glyphs (read : μ → Chars → Chars) : Node μ → List Glyph
  | .text m data => (read m data).map fun c => { char := c }
  | .comment _ _ => []
  | .document _ _ => []
  | .element m t a ks => if isBlank (.element m t a ks) then hide (glyphsOf read ks) else glyphsOf read ks

def glyphsOf (read : μ → Chars → Chars) : List (Node μ) → List Glyph
  | [] => []
  | n :: rest => glyphs read n ++ glyphsOf read rest

end

-- Content of a line: text, comments, and inline elements that are plain if there is anything to see of them.
mutual

def Phrasing : Node μ → Prop
  | .text _ _ => True
  | .comment _ _ => True
  | .document _ _ => False
  | .element m t a ks => isBlockTag t = false ∧ isVoidTag t = false ∧
      (isBlank (.element m t a ks) = false → Plain t a) ∧ PhrasingAll ks

def PhrasingAll : List (Node μ) → Prop
  | [] => True
  | n :: rest => Phrasing n ∧ PhrasingAll rest

end

theorem blank_marks (f : μ → ν) (m : μ) (t : String) (a : Attrs) (ks : List (Node μ)) :
    isBlank (.element (f m) t a (mapAllMarks f ks)) = isBlank (.element m t a ks) := by
  have solid := map_marks_solid f (.element m t a ks)
  rw [mapMarks] at solid
  rw [element_blank _ rfl, element_blank _ rfl, solid]

mutual

theorem glyphs_marks (f : μ → ν) (read : ν → Chars → Chars) (n : Node μ) :
    glyphs read (n.mapMarks f) = glyphs (fun m => read (f m)) n := by
  cases n with
  | text m data | comment m data | document m ks => rfl
  | element m t a ks => rw [mapMarks, glyphs, glyphs, blank_marks, glyphs_of_marks f read ks]

theorem glyphs_of_marks (f : μ → ν) (read : ν → Chars → Chars) (ks : List (Node μ)) :
    glyphsOf read (mapAllMarks f ks) = glyphsOf (fun m => read (f m)) ks := by
  cases ks with
  | nil => rfl
  | cons n rest => rw [mapAllMarks, glyphsOf, glyphsOf, glyphs_marks f read n, glyphs_of_marks f read rest]

end

mutual

theorem phrasing_marks (f : μ → ν) (n : Node μ) : Phrasing (n.mapMarks f) ↔ Phrasing n := by
  cases n with
  | text m data | comment m data | document m ks => exact Iff.rfl
  | element m t a ks => rw [mapMarks, Phrasing, Phrasing, blank_marks, phrasing_all_marks f ks]

theorem phrasing_all_marks (f : μ → ν) (ks : List (Node μ)) : PhrasingAll (mapAllMarks f ks) ↔ PhrasingAll ks := by
  cases ks with
  | nil => exact Iff.rfl
  | cons n rest => rw [mapAllMarks, PhrasingAll, PhrasingAll, phrasing_marks f n, phrasing_all_marks f rest]

end

theorem hide_chars (gs : List Glyph) : chars (hide gs) = chars gs := by simp [chars, hide]

theorem text_chars (s : Chars) : chars (s.map fun c => ({ char := c } : Glyph)) = s := by
  simp [chars, Function.comp_def]

mutual

theorem phrasing_text (n : Node μ) (phrasing : Phrasing n) : chars (glyphs (fun _ data => data) n) = n.textContent := by
  cases n with
  | text m data => exact text_chars data
  | comment m data => rfl
  | document m ks => exact phrasing.elim
  | element m t a ks =>
      have below := phrasing_texts ks phrasing.2.2.2
      rw [glyphs, textContent, ← below]
      split
      · exact hide_chars _
      · rfl

theorem phrasing_texts (ks : List (Node μ)) (phrasing : PhrasingAll ks) :
    chars (glyphsOf (fun _ data => data) ks) = textContents ks := by
  cases ks with
  | nil => rfl
  | cons n rest =>
      rw [glyphsOf, textContents, chars_append, phrasing_text n phrasing.1, phrasing_texts rest phrasing.2]

end

theorem blank_element_text (m : μ) (t : String) (a : Attrs) (ks : List (Node μ))
    (blank : isBlank (.element m t a ks) = true) : ∀ c ∈ textContents ks, Text.isBlank c := by
  simp only [isBlank, Bool.and_eq_true] at blank
  exact List.all_eq_true.mp blank.1.2

mutual

theorem phrasing_white (n : Node μ) (phrasing : Phrasing n) :
    ∀ g ∈ glyphs (fun _ data => data) n, g.hidden → g.isSeen = false := by
  cases n with
  | text m data =>
      intro g member hidden
      obtain ⟨c, -, rfl⟩ := List.mem_map.mp member
      cases hidden
  | comment m data => simp [glyphs]
  | document m ks => exact phrasing.elim
  | element m t a ks =>
      intro g member
      rw [glyphs] at member
      split at member
      · rename_i blank
        have inside : g.char ∈ textContents ks := by
          rw [← phrasing_texts ks phrasing.2.2.2, ← hide_chars]
          exact List.mem_map_of_mem member
        simp [Glyph.isSeen, blank_element_text m t a ks blank g.char inside]
      · exact phrasing_all_white ks phrasing.2.2.2 g member

theorem phrasing_all_white (ks : List (Node μ)) (phrasing : PhrasingAll ks) :
    ∀ g ∈ glyphsOf (fun _ data => data) ks, g.hidden → g.isSeen = false := by
  cases ks with
  | nil => simp [glyphsOf]
  | cons n rest =>
      intro g member
      rcases List.mem_append.mp member with here | later
      · exact phrasing_white n phrasing.1 g here
      · exact phrasing_all_white rest phrasing.2 g later

end

end Node

namespace Whitespace

theorem squeeze_from_ink (inRun : Bool) (s : Chars) : ink (squeezeFrom inRun s) = ink s := by
  induction s generalizing inRun with
  | nil => rfl
  | cons c s ih =>
      have step (t : Chars) : ink (c :: t) = if isCollapsible c then ink t else c :: ink t := by
        cases blank : isCollapsible c <;> simp [ink, blank]
      rw [step]
      by_cases blank : isCollapsible c
      · rw [squeeze_from_blank inRun c s blank, if_pos blank]
        cases inRun with
        | false => exact ih true
        | true => exact ih true
      · rw [squeeze_from_solid inRun c s (by simpa using blank), step, if_neg blank, if_neg blank, ih]

theorem drop_space_ink (s : Chars) : ink (dropSpace s) = ink s := by
  unfold dropSpace
  split <;> rfl

theorem trim_end_ink (s : Chars) : ink (Text.trimEnd (· == ' ') s) = ink s := by
  obtain ⟨run, whole, spaces⟩ := Text.trim_end_run (· == ' ') s
  have parts := congrArg ink whole
  rw [ink_append, ink_empty run, List.append_nil] at parts
  · exact parts.symm
  · intro c member
    obtain rfl : c = ' ' := by simpa using spaces c member
    rfl

def textsIn : List Event → List Chars
  | [] => []
  | .text s :: rest => s :: textsIn rest
  | _ :: rest => textsIn rest

theorem texts_in_append (a b : List Event) : textsIn (a ++ b) = textsIn a ++ textsIn b := by
  induction a with
  | nil => rfl
  | cons e rest ih => cases e <;> simp only [List.cons_append, textsIn, ih]

theorem texts_in_silent (e : Event) (rest : List Event) (silent : ∀ s, e ≠ .text s) :
    textsIn (e :: rest) = textsIn rest := by
  cases e with
  | text s => exact absurd rfl (silent s)
  | border | solid | tag => rfl

theorem texts_in_count (found : List Event) : (textsIn found).length = textCount found := by
  induction found with
  | nil => rfl
  | cons e rest ih => cases e <;> simp only [textsIn, textCount, List.length_cons, ih]

theorem forward_ink (flow : Flow) (found : List Event) :
    (textsIn (forward flow found)).map ink = (textsIn found).map ink := by
  induction found generalizing flow with
  | nil => rfl
  | cons e rest ih =>
      cases e with
      | text raw =>
          have same : ink (if flow.dropsSpace then dropSpace (squeeze raw) else squeeze raw) = ink raw := by
            split
            · rw [drop_space_ink, squeeze, squeeze_from_ink]
            · rw [squeeze, squeeze_from_ink]
          simp only [forward, textsIn, List.map_cons, same, ih]
      | border | solid | tag => exact ih _

theorem backward_ink (found : List Event) : (backward found).2.map ink = (textsIn found).map ink := by
  induction found with
  | nil => rfl
  | cons e rest ih =>
      cases e with
      | text s =>
          obtain ⟨t, whole, same | trimmed⟩ := backward_text s rest
          · rw [whole, List.map_cons, ih, same]
            rfl
          · rw [whole, List.map_cons, ih, trimmed, trim_end_ink]
            rfl
      | border | solid | tag => exact ih

theorem settle_ink (found : List Event) : (settle found).map ink = (textsIn found).map ink := by
  rw [settle, backward_ink, forward_ink]

-- What rendering reads: a text that nothing is noted on is squeezed.
def shown : Mark → Chars → Chars := noted squeeze

theorem solid_text (s t : Chars) (same : ink s = ink t) : (s.map fun c => ({ char := c } : Glyph)).filter isSolid =
    (t.map fun c => ({ char := c } : Glyph)).filter isSolid := by
  have solid (s : Chars) : (s.map fun c => ({ char := c } : Glyph)).filter isSolid =
      (ink s).map fun c => ({ char := c } : Glyph) := by
    rw [List.filter_map]
    rfl
  rw [solid, solid, same]

theorem solid_hide (gs hs : List Glyph) (same : gs.filter isSolid = hs.filter isSolid) :
    (hide gs).filter isSolid = (hide hs).filter isSolid := by
  have inner (gs : List Glyph) : (hide gs).filter isSolid = hide (gs.filter isSolid) := by
    rw [hide, List.filter_map]
    rfl
  rw [inner, inner, same]

theorem filled_blank (m : Mark) (t : String) (a : Attrs) (ks : List Marked) (texts : List Chars) :
    Node.isBlank (.element m t a (fillAll false ks texts).1) = Node.isBlank (.element m t a ks) := by
  have same := fill_all_unnoted (fun _ => ()) bare_unnoted.shown false ks texts
  rw [← Node.blank_marks (fun _ => ()), same]
  exact Node.blank_marks (fun _ => ()) m t a ks

mutual

theorem fill_solid (n : Marked) (texts : List Chars) (same : texts.map ink = (textsIn (events false n)).map ink) :
    (Node.glyphs shown (fill false n texts).1).filter isSolid = (Node.glyphs raw n).filter isSolid := by
  cases n with
  | text m data =>
      obtain ⟨s, rest, rfl, here, -⟩ := List.map_eq_cons_iff.mp same
      exact solid_text s data here
  | comment m data | document m ks => cases texts <;> rfl
  | element m t a ks =>
      have kept : isKept false t = false := rfl
      have inside : textsIn (events false (.element m t a ks)) = textsIn (eventsOf false ks) := by
        rw [events, kept, if_neg Bool.false_ne_true, texts_in_silent _ _ (event_silent false t), texts_in_append,
          texts_in_silent _ _ (event_silent false t), textsIn, List.append_nil]
      have below := fill_all_solid ks texts (by rw [← inside]; exact same)
      rw [fill, kept, if_neg Bool.false_ne_true]
      simp only [Node.glyphs, filled_blank]
      split
      · exact solid_hide _ _ below
      · exact below

theorem fill_all_solid (ks : List Marked) (texts : List Chars)
    (same : texts.map ink = (textsIn (eventsOf false ks)).map ink) :
    (Node.glyphsOf shown (fillAll false ks texts).1).filter isSolid = (Node.glyphsOf raw ks).filter isSolid := by
  cases ks with
  | nil => rfl
  | cons n rest =>
      rw [eventsOf, texts_in_append, List.map_append] at same
      obtain ⟨here, there, rfl, first, later⟩ := List.map_eq_append_iff.mp same
      have enough : here.length = textCount (events false n) := by
        rw [← texts_in_count, ← List.length_map ink, first, List.length_map]
      rw [fillAll, fill_enough false n here there enough]
      simp only [Node.glyphsOf, List.filter_append, fill_solid n here first, fill_all_solid rest there later]

end

theorem spell_append (symbol : Char) (a b : List Event) : spell symbol (a ++ b) = spell symbol a ++ spell symbol b := by
  induction a with
  | nil => rfl
  | cons e rest ih => cases e <;> simp [spell, ih]

theorem spelled_unbroken (symbol : Char) (found : List Event) (unbroken : Event.border ∉ found) :
    spelledRuns symbol found = [spell symbol found] := by
  induction found with
  | nil => rfl
  | cons e rest ih =>
      simp only [List.mem_cons, not_or] at unbroken
      have parts := spell_append symbol [e] rest
      rw [spelled_other symbol e rest (Ne.symm unbroken.1), ih unbroken.2, List.modifyHead_cons, ← parts]
      rfl

-- Phrasing content is one run of text that nothing solid breaks.
structure OneRun (found : List Event) (text : Chars) : Prop where
  unbroken : Event.border ∉ found
  even : Event.solid ∉ found
  spelled : ∀ symbol, spell symbol found = text

mutual

theorem phrasing_outline (read : Mark → Chars → Chars) (n : Marked) (phrasing : Node.Phrasing n) :
    OneRun (outline read false n) (chars (Node.glyphs read n)) := by
  cases n with
  | text m data =>
      refine ⟨by simp [outline], by simp [outline], fun symbol => ?_⟩
      rw [Node.glyphs, Node.text_chars]
      exact List.append_nil _
  | comment m data => exact ⟨by simp [outline], by simp [outline], fun _ => rfl⟩
  | document m ks => exact phrasing.elim
  | element m t a ks =>
      obtain ⟨inline, filled, -, below⟩ := phrasing
      obtain ⟨unbroken, even, spelled⟩ := phrasing_outlines read ks below
      have broken : t ≠ "br" := by
        rintro rfl
        exact absurd filled (by decide)
      have inside : chars (Node.glyphs read (.element m t a ks)) = chars (Node.glyphsOf read ks) := by
        rw [Node.glyphs]
        split
        · exact Node.hide_chars _
        · rfl
      have around : outline read false (.element m t a ks) = .tag :: (outlines read false ks ++ [.tag]) := by
        simp [outline, isKept, inline, filled, broken]
      rw [around, inside]
      refine ⟨by simpa using unbroken, by simpa using even, fun symbol => ?_⟩
      have whole := spell_append symbol (outlines read false ks) [.tag]
      rw [spelled symbol] at whole
      exact whole.trans (List.append_nil _)

theorem phrasing_outlines (read : Mark → Chars → Chars) (ks : List Marked) (phrasing : Node.PhrasingAll ks) :
    OneRun (outlines read false ks) (chars (Node.glyphsOf read ks)) := by
  cases ks with
  | nil => exact ⟨by simp [outlines], by simp [outlines], fun _ => rfl⟩
  | cons n rest =>
      obtain ⟨unbroken, even, spelled⟩ := phrasing_outline read n phrasing.1
      obtain ⟨others, smooth, more⟩ := phrasing_outlines read rest phrasing.2
      refine ⟨?_, ?_, fun symbol => ?_⟩
      · simpa [outlines] using ⟨unbroken, others⟩
      · simpa [outlines] using ⟨even, smooth⟩
      · rw [outlines, spell_append, spelled symbol, more symbol, Node.glyphsOf, chars_append]

end

end Whitespace

namespace Node

section

variable {μ : Type}

mutual

theorem phrasing_inside (n : Node μ) (phrasing : Phrasing n) :
    ∀ below ∈ n :: n.descendants, isBlockTag below.tag = false ∧ isVoidTag below.tag = false := by
  cases n with
  | text m data => simpa [descendants, tag] using show isBlockTag "" = false ∧ isVoidTag "" = false by decide
  | comment m data => simpa [descendants, tag] using show isBlockTag "" = false ∧ isVoidTag "" = false by decide
  | document m ks => exact phrasing.elim
  | element m t a ks =>
      rw [List.forall_mem_cons]
      exact ⟨⟨phrasing.1, phrasing.2.1⟩, phrasing_all_inside ks phrasing.2.2.2⟩

theorem phrasing_all_inside (ks : List (Node μ)) (phrasing : PhrasingAll ks) :
    ∀ below ∈ forest ks, isBlockTag below.tag = false ∧ isVoidTag below.tag = false := by
  cases ks with
  | nil => simp [forest]
  | cons n rest =>
      intro below member
      rw [forest, ← List.cons_append] at member
      rcases List.mem_append.mp member with here | later
      · exact phrasing_inside n phrasing.1 below here
      · exact phrasing_all_inside rest phrasing.2 below later

end

end

theorem phrasing_hollow (ks : List Marked) (phrasing : PhrasingAll ks) :
    ∀ below ∈ forest ks, Whitespace.Hollow below := by
  intro below member void
  rw [(phrasing_all_inside ks phrasing below member).2] at void
  cases void

end Node

open Whitespace

-- What preparing some phrasing content comes to.
structure Prepared (ks ks' : List Marked) : Prop where
  phrasing : Node.PhrasingAll ks'
  flagged : Node.FlaggedAll ks'
  text : chars (Node.glyphsOf shown ks') = settled (Node.textContents ks)
  solid : (Node.glyphsOf shown ks').filter isSolid = (Node.glyphsOf raw ks).filter isSolid
  white : ∀ g ∈ Node.glyphsOf shown ks', g.hidden → g.isSeen = false

theorem phrasing_settled (ks : List Marked) (phrasing : Node.PhrasingAll ks) :
    let filled := (fillAll false ks (settle (eventsOf false ks))).1
    Node.PhrasingAll filled ∧ chars (Node.glyphsOf shown filled) = settled (chars (Node.glyphsOf raw ks)) := by
  intro filled
  have kept : Node.PhrasingAll filled := by
    have same := fill_all_unnoted (fun _ => ()) bare_unnoted.shown false ks (settle (eventsOf false ks))
    rw [← Node.phrasing_all_marks (fun _ => ()), same]
    exact (Node.phrasing_all_marks (fun _ => ()) ks).mpr phrasing
  refine ⟨kept, ?_⟩
  have before := phrasing_outlines raw ks phrasing
  have after := phrasing_outlines shown filled kept
  have swept := forward_sweeps_unbroken true {} (outlines raw false ks) rfl rfl before.even
  have runs := fill_swept squeeze false 'x' rfl ks (Node.phrasing_hollow ks phrasing) swept
  have whole := spelled_unbroken 'x' (outlines shown false filled) after.unbroken
  rw [spelled_unbroken 'x' _ before.unbroken, before.spelled] at runs
  rw [after.spelled] at whole
  exact List.singleton_inj.mp (whole.symm.trans runs)

theorem unmarked_shown (ks : List Marked) (ks' : List Marked)
    (same : Node.mapAllMarks Mark.shown ks = Node.mapAllMarks Mark.shown ks') :
    Node.glyphsOf shown ks = Node.glyphsOf shown ks' := by
  have read (ks : List Marked) :=
    Node.glyphs_of_marks Mark.shown (fun noted data => noted.getD (squeeze data)) ks
  exact (read ks).symm.trans ((congrArg _ same).trans (read ks'))

theorem paragraph_shown (o : Options) (flowing : o.preformattedCode = false) (m : Mark) (a : Attrs) (ks : List Marked)
    (phrasing : Node.PhrasingAll ks) :
    ∃ m' ks', prepare o (.element m "p" a ks) = .element m' "p" a ks' ∧
      m'.blank = Node.isBlank (.element m "p" a ks) ∧ Prepared ks ks' := by
  let filled := (fillAll false ks (settle (eventsOf false ks))).1
  obtain ⟨kept, settled⟩ := phrasing_settled ks phrasing
  have texts : chars (Node.glyphsOf raw ks) = Node.textContents ks := Node.phrasing_texts ks phrasing
  have solid := fill_all_solid ks _ (settle_ink (eventsOf false ks))
  have shape : prepare o (.element m "p" a ks) =
      .element { m with blank := !(staysBlankTag "p" || (Node.markAllBlank filled).2) } "p" a
        (ListMarker.markAll o (Node.markAllBlank filled).1) := by
    rw [prepare, flowing, collapse, isKept, Bool.false_and, if_neg Bool.false_ne_true, Node.markBlank,
      ListMarker.mark, if_neg (by decide)]
  have marks : Node.glyphsOf shown (ListMarker.markAll o (Node.markAllBlank filled).1) =
      Node.glyphsOf shown filled := by
    refine unmarked_shown _ _ ?_
    rw [mark_all_unnoted Mark.shown (fun _ _ => rfl), mark_all_blank_unnoted Mark.shown (fun _ _ => rfl)]
  have bared : Node.PhrasingAll (ListMarker.markAll o (Node.markAllBlank filled).1) := by
    rw [← Node.phrasing_all_marks (fun _ => ()), mark_all_unnoted _ bare_unnoted.marker,
      mark_all_blank_unnoted _ bare_unnoted.blank, Node.phrasing_all_marks]
    exact kept
  have flags := Node.prepared_flags o (.element m "p" a ks)
  have same := prepare_bare o (.element m "p" a ks)
  rw [shape] at flags same
  refine ⟨_, _, shape, ?_, bared, flags.2, ?_, ?_, ?_⟩
  · rw [flags.1, ← Node.element_blank _ rfl, ← Node.blank_marks (fun _ => ()), ← Node.blank_marks (fun _ => ()) m]
    exact congrArg Node.isBlank same
  · rw [marks, settled, texts]
  · rw [marks, solid]
  · intro g member hidden
    by_cases collapsible : isCollapsible g.char
    · simp [Glyph.isSeen, collapsible_blank g.char collapsible]
    · have inside : g ∈ (Node.glyphsOf raw ks).filter isSolid := by
        rw [← solid, ← marks, List.mem_filter]
        exact ⟨member, by simpa [isSolid] using collapsible⟩
      exact Node.phrasing_all_white ks phrasing g (List.mem_filter.mp inside).1 hidden

end Downmark
