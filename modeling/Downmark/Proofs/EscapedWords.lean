import Downmark.Proofs.Carried
import Downmark.Proofs.EscapedText
import Downmark.Proofs.RuleTexts
import Downmark.Proofs.Unescaped
/-!
Escaping a text word by word. Main statement: a line whose white space is folded after it was escaped is the folded
line, escaped if anything was escaped at the start of the line before.
-/

set_option autoImplicit false

namespace Downmark.Escape

open Text

-- All of escaping that does not depend on where in a line a character stands.
def escapeInner (s : Chars) : Chars := escapeHtml (backslash inlineSpecial s)

theorem escape_inner_spelled (s : Chars) (free : '\n' ∉ s) : Spelled inlineSpecial false s (escapeInner s) :=
  spelled_html inlineSpecial s (by decide) free

theorem escape_inner_reads (s : Chars) (free : '\n' ∉ s) : Reads (escapeInner s) s :=
  spelled_reads inlineSpecial false s _ (escape_inner_spelled s free) (by decide) (by decide)

theorem markdown_line (s : Chars) (free : '\n' ∉ s) : markdown s [] = escapeLine (escapeInner s) := by
  have written : '\n' ∉ escapeInner s := spelled_free inlineSpecial false s _ (escape_inner_spelled s free) free
  have ahead (w : Chars) : escapeSplitMarker [] w = w := rfl
  rw [markdown, ahead, ← escapeInner, on_lines_free escapeLine _ written]

theorem escape_inner_cons (c : Char) (s : Chars) (common : c ∉ inlineSpecial) (closed : ∀ w, opensMarkup c w = false) :
    escapeInner (c :: s) = c :: escapeInner s := by
  have plain : backslash inlineSpecial (c :: s) = c :: backslash inlineSpecial s := by simp [backslash, common]
  rw [escapeInner, plain, escape_html_cons, closed, if_neg Bool.false_ne_true, escapeInner]

theorem blank_silent (c : Char) (blank : isBlank c = true) : isTelling c = false := by
  by_contra tells
  rw [solid_class isTelling (by decide +kernel) c (by simpa using tells)] at blank
  cases blank

-- White space is not telling: what is before it is escaped without what is behind it.
theorem escape_inner_blank (a b : Chars) (c : Char) (blank : isBlank c = true) :
    escapeInner (a ++ c :: b) = escapeInner a ++ c :: escapeInner b := by
  have common := (blank_plain c [] blank).2.1
  have closed (w : Chars) : opensMarkup c w = false := (blank_plain c w blank).2.2.1
  have plain : backslash inlineSpecial (a ++ c :: b) = backslash inlineSpecial a ++ c :: backslash inlineSpecial b := by
    simp [backslash, common]
  have after : c :: escapeInner b = escapeHtml (c :: backslash inlineSpecial b) := by
    rw [← escape_inner_cons c b common closed, escapeInner]
    simp [backslash, common]
  rw [escapeInner, plain, after, escapeInner]
  generalize backslash inlineSpecial a = line
  generalize backslash inlineSpecial b = rest
  induction line with
  | nil => rfl
  | cons d line ih =>
      have same : telling (line ++ c :: rest) = telling (line ++ []) :=
        telling_append line _ _ (telling_stop c rest (blank_silent c blank))
      rw [List.append_nil] at same
      rw [List.cons_append, escape_html_cons, escape_html_cons, ih, opens_markup_telling d _ _ same]
      split <;> rfl

theorem escape_inner_empty (s : Chars) : escapeInner s = [] ↔ s = [] := by
  refine ⟨fun none => ?_, by rintro rfl; rfl⟩
  cases s with
  | nil => rfl
  | cons c s =>
      unfold escapeInner backslash at none
      rw [List.flatMap_cons] at none
      split at none
      · rw [List.cons_append, escape_html_cons] at none
        split at none <;> cases none
      · rw [List.cons_append, escape_html_cons] at none
        split at none <;> cases none

theorem escape_inner_solid (w : Chars) (solid : ∀ c ∈ w, isBlank c = false) :
    ∀ c ∈ escapeInner w, isBlank c = false := by
  have free : '\n' ∉ w := fun member => absurd (solid _ member) (by decide)
  intro c member
  rcases spelled_mem inlineSpecial false w _ (escape_inner_spelled w free) c member with inside | rfl
  · exact solid c inside
  · rfl

theorem words_escape_inner (s : Chars) : words (escapeInner s) = (words s).map escapeInner := by
  have single (w : Chars) (solid : ∀ c ∈ w, isBlank c = false) : words (escapeInner w) = (words w).map escapeInner := by
    cases w with
    | nil => rfl
    | cons c w =>
        have some : escapeInner (c :: w) ≠ [] := fun none => List.cons_ne_nil c w ((escape_inner_empty _).mp none)
        rw [words_solid _ some (escape_inner_solid _ solid), words_solid _ (List.cons_ne_nil c w) solid,
          List.map_singleton]
  induction s using word_induction with
  | last w solid => exact single w solid
  | more w c rest solid blank ih =>
      rw [escape_inner_blank w rest c blank, words_blank c blank, words_blank c blank, List.map_append,
        single w solid, ih]

theorem escape_inner_words (ws : List Chars) :
    escapeInner ([' '].intercalate ws) = [' '].intercalate (ws.map escapeInner) := by
  induction ws with
  | nil => rfl
  | cons w ws ih =>
      cases ws with
      | nil => simp
      | cons v ws =>
          rw [List.map_cons, List.map_cons, List.intercalate_cons_cons, List.intercalate_cons_cons, ← List.map_cons,
            ← ih, List.append_assoc, List.append_assoc]
          exact escape_inner_blank w _ ' ' rfl

theorem escape_inner_spaced (s : Chars) : escapeInner (oneSpaced s) = oneSpaced (escapeInner s) := by
  rw [oneSpaced, oneSpaced, escape_inner_words, words_escape_inner]

-- A text that begins with a word: the word, and what is behind it.
structure Leading (word rest : Chars) : Prop where
  some : word ≠ []
  solid : ∀ c ∈ word, isBlank c = false
  ends : rest.head?.all isBlank = true

theorem gap_blank (c : Char) (gap : isGap c = true) : isBlank c = true := by
  rcases (by simpa [isGap] using gap : c = ' ' ∨ c = '\t') with rfl | rfl <;> rfl

theorem solid_gapless (c : Char) (solid : isBlank c = false) : isGap c = false := by
  by_contra gap
  rw [gap_blank c (by simpa using gap)] at solid
  cases solid

theorem ends_marker_word (word rest : Chars) (solid : ∀ c ∈ word, isBlank c = false) :
    endsMarker (word ++ rest) = (endsMarker word && endsMarker rest) := by
  cases word with
  | nil => rfl
  | cons c word => simp [endsMarker, solid_gapless c (solid c List.mem_cons_self)]

theorem run_word (p : Char → Bool) (solid : ∀ c, p c = true → isBlank c = false) (word rest : Chars)
    (ends : rest.head?.all isBlank = true) : (word ++ rest).takeWhile p = word.takeWhile p ∧
      (word ++ rest).dropWhile p = word.dropWhile p ++ rest := by
  have stop : rest.head?.any p = false := by
    cases rest with
    | nil => rfl
    | cons c rest =>
        have blank : isBlank c = true := ends
        by_contra belongs
        rw [solid c (by simpa using belongs)] at blank
        cases blank
  induction word with
  | nil => exact ⟨(take_empty p rest).mpr stop, drop_none p rest stop⟩
  | cons c word ih =>
      by_cases belongs : p c = true
      · simp [belongs, ih.1, ih.2]
      · simp [belongs]

theorem opens_heading_word (word rest : Chars) (leading : Leading word rest) :
    opensHeading (word ++ rest) = (opensHeading word && endsMarker rest) := by
  have sign (c : Char) (same : (c == '#') = true) : isBlank c = false := by
    rw [eq_of_beq same]
    rfl
  obtain ⟨taken, dropped⟩ := run_word (· == '#') sign word rest leading.ends
  have behind : endsMarker (word.dropWhile (· == '#') ++ rest) =
      (endsMarker (word.dropWhile (· == '#')) && endsMarker rest) :=
    ends_marker_word _ rest fun c member => leading.solid c ((List.dropWhile_sublist _).subset member)
  simp only [opensHeading, taken, dropped, behind, Bool.and_assoc]

theorem decimal_solid (c : Char) (decimal : isDecimal c = true) : isBlank c = false :=
  solid_class isDecimal (by decide +kernel) c decimal

theorem numbered_word (word rest : Chars) (leading : Leading word rest) :
    numberedLine? (word ++ rest) = (numberedLine? word).map fun found => (found.1, found.2 ++ rest) := by
  obtain ⟨taken, dropped⟩ := run_word isDecimal decimal_solid word rest leading.ends
  unfold numberedLine?
  rw [taken, dropped]
  cases word.takeWhile isDecimal with
  | nil => rfl
  | cons d digits =>
      cases word.dropWhile isDecimal with
      | nil =>
          have period : ∀ more, rest ≠ '.' :: more := by
            rintro more rfl
            exact absurd leading.ends Bool.false_ne_true
          cases rest with
          | nil => rfl
          | cons c rest =>
              by_cases dot : c = '.'
              · exact absurd (congrArg (· :: rest) dot) (period rest)
              · simp
      | cons c more =>
          by_cases dot : c = '.'
          · simp [dot]
          · simp [dot]

theorem escape_line_other (c : Char) (s : Chars) (other : c ∉ lineSpecial) :
    escapeLine (c :: s) = match numberedLine? (c :: s) with
      | some (digits, rest) => if endsMarker rest then digits ++ '\\' :: '.' :: rest else c :: s
      | none => c :: s := by
  simp only [lineSpecial, List.mem_cons, not_or] at other
  obtain ⟨hash, dash, plus, quote, underline, -⟩ := other
  simp only [escapeLine]
  cases numberedLine? (c :: s) <;> simp [hash, dash, plus, quote, underline]

-- Only where a marker is a word of its own it matters what is behind it.
theorem escape_line_word (word rest : Chars) (leading : Leading word rest) :
    escapeLine (word ++ rest) = escapeLine word ++ rest ∨
      escapeLine (word ++ rest) = word ++ rest ∧ endsMarker rest = false := by
  have heading := opens_heading_word word rest leading
  have number := numbered_word word rest leading
  obtain ⟨some, solid, -⟩ := leading
  cases word with
  | nil => exact absurd rfl some
  | cons c word =>
      have marker := ends_marker_word word rest fun d member => solid d (List.mem_cons_of_mem c member)
      rw [List.cons_append] at heading number ⊢
      by_cases special : c ∈ lineSpecial
      · rcases (by simpa [lineSpecial] using special :
            c = '#' ∨ c = '-' ∨ c = '+' ∨ c = '>' ∨ c = '=' ∨ c = '.') with
          rfl | rfl | rfl | rfl | rfl | rfl
        · simp only [escapeLine, heading]
          cases opensHeading ('#' :: word) <;> cases endsMarker rest <;> simp
        · exact .inl rfl
        · simp only [escapeLine, marker]
          cases endsMarker word <;> cases endsMarker rest <;> simp
        · exact .inl rfl
        · exact .inl rfl
        · exact .inl rfl
      · rw [escape_line_other c _ special, escape_line_other c _ special, number]
        cases found : numberedLine? (c :: word) with
        | none => exact .inl rfl
        | some parts =>
            obtain ⟨digits, behind⟩ := parts
            obtain ⟨line, -, -⟩ := (numbered_line_iff _ digits behind).mp found
            have ends := ends_marker_word behind rest fun d member => solid d (by rw [line]; simp [member])
            simp only [Option.map_some, ends]
            cases endsMarker behind <;> cases endsMarker rest <;> simp

theorem escape_line_solid (word : Chars) (solid : ∀ c ∈ word, isBlank c = false) :
    ∀ c ∈ escapeLine word, isBlank c = false := by
  have guarded := escape_line_guards word
  generalize escapeLine word = written at guarded
  cases guarded with
  | none => exact solid
  | first c rest line _ =>
      subst line
      exact List.forall_mem_cons.mpr ⟨rfl, solid⟩
  | period digits rest line _ _ =>
      subst line
      simp only [List.forall_mem_append, List.forall_mem_cons] at solid ⊢
      exact ⟨solid.1, rfl, solid.2⟩

theorem escape_line_empty (word : Chars) : escapeLine word = [] ↔ word = [] := by
  have guarded := escape_line_guards word
  generalize escapeLine word = written at guarded
  cases guarded with
  | none => rfl
  | first c rest line _ => simp [line]
  | period digits rest line _ _ => simp [line]

-- What is left of the text behind a word when its white space is folded.
def foldedTail (rest : Chars) : Chars := if words rest = [] then [] else ' ' :: oneSpaced rest

theorem one_spaced_word (word rest : Chars) (leading : Leading word rest) :
    oneSpaced (word ++ rest) = word ++ foldedTail rest := by
  cases rest with
  | nil =>
      rw [List.append_nil, one_spaced_solid word leading.solid]
      exact (List.append_nil word).symm
  | cons c rest =>
      have blank : isBlank c = true := leading.ends
      have behind : words (c :: rest) = words rest := by
        rw [← List.nil_append (c :: rest), words_blank c blank]
        rfl
      rw [one_spaced_blank word rest c leading.solid blank, foldedTail, oneSpaced, oneSpaced, behind]
      by_cases none : words rest = []
      · simp [none, leading.some]
      · simp [none, leading.some]

theorem folded_tail_ends (rest : Chars) :
    (foldedTail rest).head?.all isBlank = true ∧ endsMarker (foldedTail rest) = true := by
  unfold foldedTail
  split
  · exact ⟨rfl, rfl⟩
  · exact ⟨rfl, rfl⟩

theorem leading_folded (word rest : Chars) (leading : Leading word rest) : Leading word (foldedTail rest) :=
  ⟨leading.some, leading.solid, (folded_tail_ends rest).1⟩

theorem leading_escaped (word rest : Chars) (leading : Leading word rest) : Leading (escapeLine word) rest :=
  ⟨fun none => leading.some ((escape_line_empty word).mp none), escape_line_solid word leading.solid, leading.ends⟩

theorem escape_line_folded (word rest : Chars) (leading : Leading word rest) :
    escapeLine (oneSpaced (word ++ rest)) = escapeLine word ++ foldedTail rest := by
  rw [one_spaced_word word rest leading]
  rcases escape_line_word word _ (leading_folded word rest leading) with escaped | ⟨-, open_⟩
  · exact escaped
  · rw [(folded_tail_ends rest).2] at open_
    cases open_

theorem escape_line_blank (line : Chars) (blank : line.head?.all isBlank = true) : escapeLine line = line := by
  have guarded := escape_line_guards line
  generalize escapeLine line = written at guarded
  cases guarded with
  | none => rfl
  | first c rest same listed =>
      subst same
      have solid := List.any_eq_false.mp (rfl : lineSpecial.any isBlank = false) c listed
      exact absurd blank (by simp [solid])
  | period digits rest same some all =>
      cases digits with
      | nil => exact absurd rfl some
      | cons d digits =>
          subst same
          exact absurd blank (by simp [decimal_solid d (all d List.mem_cons_self)])

theorem leading_word (line : Chars) :
    line.head?.all isBlank = true ∨ ∃ word rest, line = word ++ rest ∧ Leading word rest := by
  have parts := List.takeWhile_append_dropWhile (p := fun c => !isBlank c) (l := line)
  by_cases none : line.takeWhile (fun c => !isBlank c) = []
  · have blank := (take_empty _ line).mp none
    left
    cases line with
    | nil => rfl
    | cons c line => simpa using blank
  · refine .inr ⟨_, _, parts.symm, none, fun c member => ?_, ?_⟩
    · simpa using List.all_eq_true.mp List.all_takeWhile c member
    · have stop := drop_stop (fun c => !isBlank c) line
      cases rest : line.dropWhile fun c => !isBlank c with
      | nil => rfl
      | cons c rest =>
          rw [rest] at stop
          simpa using stop

theorem folded_line (line : Chars) : oneSpaced (escapeLine line) =
    if escapeLine line = line then oneSpaced line else escapeLine (oneSpaced line) := by
  split
  · rename_i same
    rw [same]
  · rename_i changed
    rcases leading_word line with blank | ⟨word, rest, rfl, leading⟩
    · exact absurd (escape_line_blank line blank) changed
    · rcases escape_line_word word rest leading with escaped | ⟨same, -⟩
      · rw [escaped, one_spaced_word _ rest (leading_escaped word rest leading), escape_line_folded word rest leading]
      · exact absurd same changed

theorem opens_heading_start (line : Chars) (opens : opensHeading line = true) : BlockStart line := by
  simp only [opensHeading, Bool.and_eq_true, decide_eq_true_eq] at opens
  obtain ⟨⟨some, few⟩, ends⟩ := opens
  have signs : line.takeWhile (· == '#') = List.replicate (line.takeWhile (· == '#')).length '#' :=
    List.eq_replicate_iff.mpr ⟨rfl, fun c member => by simpa using List.all_eq_true.mp List.all_takeWhile c member⟩
  rw [← List.takeWhile_append_dropWhile (p := (· == '#')) (l := line), signs]
  exact .heading _ _ some few ((ends_marker_iff _).mp ends)

theorem escaped_block_start (line : Chars) (changed : escapeLine line ≠ line) : BlockStart line := by
  unfold escapeLine at changed
  split at changed
  · split at changed
    · exact opens_heading_start _ ‹_›
    · exact absurd rfl changed
  · exact .dash _
  · split at changed
    · exact .plus _ ((ends_marker_iff _).mp ‹_›)
    · exact absurd rfl changed
  · exact .quote _
  · exact .underline _
  · split at changed
    · rename_i digits rest found
      obtain ⟨line, some, all⟩ := (numbered_line_iff _ digits rest).mp found
      split at changed
      · exact line ▸ .number digits rest some all ((ends_marker_iff rest).mp ‹_›)
      · exact absurd rfl changed
    · exact absurd rfl changed

theorem escape_line_iff (line : Chars) : escapeLine line = line ↔ ¬ BlockStart line :=
  ⟨fun same block => block_start_escaped line block same, fun plain =>
    by_contra fun changed => plain (escaped_block_start line changed)⟩

-- What is written as it is, whatever stands around it.
def isInert (c : Char) : Bool := !('<' :: '&' :: inlineSpecial).contains c

theorem escape_inner_inert (front rest : Chars) (inert : ∀ c ∈ front, isInert c = true) :
    escapeInner (front ++ rest) = front ++ escapeInner rest := by
  induction front with
  | nil => rfl
  | cons c front ih =>
      obtain ⟨first, others⟩ := List.forall_mem_cons.mp inert
      simp only [isInert, List.contains_cons, Bool.not_eq_true', Bool.or_eq_false_iff, beq_eq_false_iff_ne] at first
      have closed (w : Chars) : opensMarkup c w = false := by simp [opensMarkup, first.1, first.2.1]
      rw [List.cons_append, escape_inner_cons c _ (by simpa using first.2.2) closed, ih others,
        List.cons_append]

theorem decimal_inert (c : Char) (decimal : isDecimal c = true) : isInert c = true := by
  have none : ('<' :: '&' :: inlineSpecial).any isDecimal = false := by decide
  have other : c ∉ '<' :: '&' :: inlineSpecial := fun listed => List.any_eq_false.mp none c listed decimal
  simpa [isInert] using other

theorem escape_inner_marker_ends (rest : Chars) (ends : MarkerEnds rest) : MarkerEnds (escapeInner rest) := by
  cases rest with
  | nil => trivial
  | cons c rest =>
      rcases ends with rfl | rfl
      · rw [escape_inner_cons ' ' rest (by decide) fun _ => rfl]
        exact .inl rfl
      · rw [escape_inner_cons '\t' rest (by decide) fun _ => rfl]
        exact .inr rfl

theorem read_marker_ends (rest s : Chars) (reads : Reads rest s) (ends : MarkerEnds rest) : MarkerEnds s := by
  cases reads with
  | nil => trivial
  | plain => exact ends
  | slashed => rcases ends with same | same <;> cases same

theorem read_block_start (line s : Chars) (reads : Reads line s) (block : BlockStart line) : BlockStart s := by
  have behind (front rest : Chars) (reads : Reads (front ++ rest) s) (unslashed : '\\' ∉ front) :
      ∃ t, s = front ++ t ∧ (MarkerEnds rest → MarkerEnds t) := by
    obtain ⟨t, whole, later⟩ := reads_behind front rest s reads unslashed
    exact ⟨t, whole, read_marker_ends rest t later⟩
  cases block with
  | heading signs rest some few ends =>
      obtain ⟨t, rfl, next⟩ := behind _ rest reads fun member => absurd (List.eq_of_mem_replicate member) (by decide)
      exact .heading signs t some few (next ends)
  | dash rest =>
      obtain ⟨t, rfl, -⟩ := behind ['-'] rest reads (by decide)
      exact .dash t
  | plus rest ends =>
      obtain ⟨t, rfl, next⟩ := behind ['+'] rest reads (by decide)
      exact .plus t (next ends)
  | quote rest =>
      obtain ⟨t, rfl, -⟩ := behind ['>'] rest reads (by decide)
      exact .quote t
  | underline rest =>
      obtain ⟨t, rfl, -⟩ := behind ['='] rest reads (by decide)
      exact .underline t
  | number digits rest some all ends =>
      rw [← List.singleton_append, ← List.append_assoc] at reads
      obtain ⟨t, rfl, next⟩ := behind (digits ++ ['.']) rest reads fun member => by
        rcases List.mem_append.mp member with digit | period
        · exact (decimal_common _ (all _ digit)).1 rfl
        · exact absurd (List.mem_singleton.mp period) (by decide)
      rw [List.append_assoc]
      exact .number digits t some all (next ends)

theorem written_block_start (s : Chars) (block : BlockStart s) : BlockStart (escapeInner s) := by
  cases block with
  | heading signs rest some few ends =>
      rw [escape_inner_inert _ rest fun c member => List.eq_of_mem_replicate member ▸ rfl]
      exact .heading signs _ some few (escape_inner_marker_ends rest ends)
  | dash rest => exact escape_inner_inert ['-'] rest (List.all_eq_true.mp rfl) ▸ .dash _
  | plus rest ends =>
      have written := escape_inner_inert ['+'] rest (List.all_eq_true.mp rfl)
      exact written ▸ .plus _ (escape_inner_marker_ends rest ends)
  | quote rest => exact escape_inner_inert ['>'] rest (List.all_eq_true.mp rfl) ▸ .quote _
  | underline rest => exact escape_inner_inert ['='] rest (List.all_eq_true.mp rfl) ▸ .underline _
  | number digits rest some all ends =>
      have inert : ∀ c ∈ digits ++ ['.'], isInert c = true := fun c member => by
        rcases List.mem_append.mp member with digit | period
        · exact decimal_inert c (all c digit)
        · exact List.mem_singleton.mp period ▸ rfl
      have written := escape_inner_inert (digits ++ ['.']) rest inert
      rw [List.append_assoc, List.append_assoc] at written
      exact written ▸ .number digits _ some all (escape_inner_marker_ends rest ends)

theorem escape_inner_block_start (s : Chars) (free : '\n' ∉ s) : BlockStart (escapeInner s) ↔ BlockStart s :=
  ⟨read_block_start _ s (escape_inner_reads s free), written_block_start s⟩

end Downmark.Escape
