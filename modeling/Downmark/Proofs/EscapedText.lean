import Downmark.Proofs.Shielded
/-!
What an escaped text does not do: it opens no markup, and no line of it opens a block. Main statement:
this holds of every text, also where the text continues a line that already holds a number.
-/

set_option autoImplicit false

namespace Downmark.Escape

def MarkerEnds : Chars → Prop
  | [] => True
  | c :: _ => c = ' ' ∨ c = '\t'

inductive BlockStart : Chars → Prop where
  | heading (signs : Nat) (rest : Chars) (some : 1 ≤ signs) (few : signs ≤ 6) (ends : MarkerEnds rest) :
      BlockStart (List.replicate signs '#' ++ rest)
  | dash (rest : Chars) : BlockStart ('-' :: rest)
  | plus (rest : Chars) (ends : MarkerEnds rest) : BlockStart ('+' :: rest)
  | quote (rest : Chars) : BlockStart ('>' :: rest)
  | underline (rest : Chars) : BlockStart ('=' :: rest)
  | number (digits rest : Chars) (some : digits ≠ []) (all : ∀ d ∈ digits, Text.isDecimal d)
      (ends : MarkerEnds rest) : BlockStart (digits ++ '.' :: rest)

def NumberMarker (line : Chars) : Prop :=
  ∃ gaps digits rest, line = gaps ++ digits ++ '.' :: rest ∧ (∀ c ∈ gaps, Text.isGap c) ∧
    digits ≠ [] ∧ (∀ d ∈ digits, Text.isDecimal d) ∧ MarkerEnds rest

theorem ends_marker_iff (rest : Chars) : endsMarker rest = true ↔ MarkerEnds rest := by
  cases rest with
  | nil => simp [endsMarker, MarkerEnds]
  | cons c rest => simp [endsMarker, MarkerEnds, Text.isGap]

theorem decimal_not_line_special (d : Char) (decimal : Text.isDecimal d) : d ∉ lineSpecial := by
  intro listed
  have none : lineSpecial.any Text.isDecimal = false := by decide
  exact List.any_eq_false.mp none d listed decimal

theorem backslash_no_block (rest : Chars) : ¬ BlockStart ('\\' :: rest) := by
  intro block
  generalize shape : '\\' :: rest = line at block
  cases block with
  | heading signs rest some few ends =>
      cases signs with
      | zero => cases some
      | succ n => cases shape
  | dash => cases shape
  | plus => cases shape
  | quote => cases shape
  | underline => cases shape
  | number digits rest some all ends =>
      cases digits with
      | nil => exact some rfl
      | cons d ds =>
          obtain ⟨rfl, -⟩ := List.cons.inj shape
          exact absurd (all '\\' (List.mem_cons_self)) (by decide)

theorem period_no_block (digits last : Chars) (some : digits ≠ []) (all : ∀ d ∈ digits, Text.isDecimal d) :
    ¬ BlockStart (digits ++ '\\' :: last) := by
  intro block
  generalize shape : digits ++ '\\' :: last = line at block
  cases digits with
  | nil => exact some rfl
  | cons d ds =>
      have first := all d (List.mem_cons_self)
      have other := decimal_not_line_special d first
      cases block with
      | heading signs rest some few ends =>
          cases signs with
          | zero => cases some
          | succ n =>
              obtain ⟨rfl, -⟩ := List.cons.inj shape
              exact other (by decide)
      | dash | plus | quote | underline =>
          obtain ⟨rfl, -⟩ := List.cons.inj shape
          exact other (by decide)
      | number others tail _ ones ends =>
          have unique := Text.run_unique Text.isDecimal (d :: ds) others ('\\' :: last) ('.' :: tail) all ones
            (by decide : Text.isDecimal '\\' = false) (by decide : Text.isDecimal '.' = false) shape
          cases unique.2

theorem heading_opens (signs : Nat) (rest : Chars) (some : 1 ≤ signs) (few : signs ≤ 6)
    (ends : MarkerEnds rest) : opensHeading (List.replicate signs '#' ++ rest) = true := by
  have marker := (ends_marker_iff rest).mpr ends
  have run : ∀ c ∈ List.replicate signs '#', (c == '#') = true := by simp
  have stop : rest.head?.any (· == '#') = false := by
    cases rest with
    | nil => rfl
    | cons c rest => rcases ends with rfl | rfl <;> rfl
  have head := Text.take_run (· == '#') _ rest run stop
  have whole := List.takeWhile_append_dropWhile (p := (· == '#')) (l := List.replicate signs '#' ++ rest)
  rw [head] at whole
  simp [opensHeading, head, List.append_cancel_left whole, marker, some, few]

theorem escape_line_number (d : Char) (s digits rest : Chars) (other : d ∉ lineSpecial)
    (found : numberedLine? (d :: s) = some (digits, rest)) (marker : endsMarker rest) :
    escapeLine (d :: s) = digits ++ '\\' :: '.' :: rest := by
  simp only [lineSpecial, List.mem_cons, not_or] at other
  obtain ⟨hash, dash, plus, quote, underline, -⟩ := other
  simp [escapeLine, hash, dash, plus, quote, underline, found, marker]

-- One case for each way to open a block, and in each the line gets longer.
theorem block_start_escaped (line : Chars) (block : BlockStart line) : escapeLine line ≠ line := by
  have longer (c : Char) (s : Chars) : c :: s ≠ s := by
    intro same
    simpa using congrArg List.length same
  cases block with
  | heading signs rest some few ends =>
      have opens := heading_opens signs rest some few ends
      cases signs with
      | zero => cases some
      | succ n =>
          rw [List.replicate_succ, List.cons_append] at opens ⊢
          simp only [escapeLine, opens, if_true]
          exact longer '\\' _
  | dash rest => exact longer '\\' _
  | plus rest ends =>
      have marker := (ends_marker_iff rest).mpr ends
      simp only [escapeLine, marker, if_true]
      exact longer '\\' _
  | quote rest => exact longer '\\' _
  | underline rest => exact longer '\\' _
  | number digits rest some all ends =>
      have marker := (ends_marker_iff rest).mpr ends
      have found := (numbered_line_iff _ digits rest).mpr ⟨rfl, some, all⟩
      cases digits with
      | nil => exact absurd rfl some
      | cons d ds =>
          have other := decimal_not_line_special d (all d (List.mem_cons_self))
          rw [List.cons_append] at found ⊢
          rw [escape_line_number d _ _ rest other found marker]
          simp

theorem escape_line_no_block (line : Chars) : ¬ BlockStart (escapeLine line) := by
  intro block
  have guarded := escape_line_guards line
  generalize written : escapeLine line = v at guarded block
  cases guarded with
  | none => exact block_start_escaped line block written
  | first c rest _ _ => exact backslash_no_block _ block
  | period digits rest _ some all => exact period_no_block digits _ some all block

theorem guards_free (w v : Chars) (guarded : Guards w v) (free : '\n' ∉ w) : '\n' ∉ v := by
  cases guarded with
  | none => exact free
  | first c rest line _ =>
      subst line
      simpa using free
  | period digits rest line _ _ =>
      subst line
      simpa using free

theorem split_marker_cases (ahead w : Chars) :
    escapeSplitMarker ahead w = w ∨ escapeSplitMarker ahead w = '\\' :: w := by
  unfold escapeSplitMarker
  split
  · exact .inr rfl
  · exact .inl rfl

-- The split marker changes the first line only, and there it can only put a backslash in front.
theorem split_marker_no_block (ahead w : Chars) (guarded : ∀ line ∈ Text.lines w, ¬ BlockStart line) :
    ∀ line ∈ Text.lines (escapeSplitMarker ahead w), ¬ BlockStart line := by
  intro line member
  rcases split_marker_cases ahead w with same | same
  · rw [same] at member
    exact guarded line member
  · rw [same, Text.lines_cons, if_neg (by decide)] at member
    cases rest : Text.lines w with
    | nil => exact absurd rest (Text.lines_ne_nil _)
    | cons first more =>
        rw [rest] at member guarded
        rcases List.mem_cons.mp member with here | later
        · rw [here]
          exact backslash_no_block first
        · exact guarded line (List.mem_cons_of_mem first later)

theorem markdown_no_block (s ahead line : Chars) (member : line ∈ Text.lines (markdown s ahead)) :
    ¬ BlockStart line := by
  have keeps (w : Chars) (free : '\n' ∉ w) : '\n' ∉ escapeLine w :=
    guards_free w _ (escape_line_guards w) free
  refine split_marker_no_block ahead _ ?_ line member
  intro w found
  rw [lines_on_lines escapeLine keeps] at found
  obtain ⟨v, -, rfl⟩ := List.mem_map.mp found
  exact escape_line_no_block v

theorem escaped_lines (special s line : Chars) (apart : '<' ∉ special ∧ '&' ∉ special) (common : '\n' ∉ special)
    (member : line ∈ Text.lines (escapeHtml (Text.backslash special s))) :
    ∃ v, Spelled special false v line := by
  have free (v : Chars) (single : '\n' ∉ v) : '\n' ∉ escapeHtml (Text.backslash special v) :=
    spelled_free special false v _ (spelled_html special v apart single) single
  induction s using Text.line_induction with
  | last v single =>
      rw [Text.lines_free _ (free v single), List.mem_singleton] at member
      exact ⟨v, member ▸ spelled_html special v apart single⟩
  | more v rest single ih =>
      have split : Text.backslash special (v ++ '\n' :: rest) =
          Text.backslash special v ++ '\n' :: Text.backslash special rest := by
        simp [Text.backslash, common]
      rw [split, escape_html_newline, Text.lines_newline _ _ (free v single)] at member
      rcases List.mem_cons.mp member with rfl | later
      · exact ⟨v, spelled_html special v apart single⟩
      · exact ih later

-- All that opens a block is special here, but for the digits of a number, and they end in a period.
theorem escape_number_no_block (s w : Chars) (spelled : Spelled allSpecial false s w) :
    ¬ BlockStart (escapeNumber w) := by
  have common (c : Char) (rest : Chars) (shape : w = c :: rest) (plain : c ≠ '\\') : c ∉ allSpecial := by
    subst shape
    obtain ⟨t, -, other, -⟩ := spelled_common allSpecial false s c rest spelled plain
    exact other
  intro block
  have guarded := escape_number_guards w
  generalize written : escapeNumber w = v at guarded block
  cases guarded with
  | first c rest _ _ => exact backslash_no_block _ block
  | period digits rest _ some all => exact period_no_block digits _ some all block
  | none =>
      cases block with
      | heading signs rest some few ends =>
          cases signs with
          | zero => cases some
          | succ n => exact common '#' _ rfl (by decide) (by decide)
      | dash rest => exact common '-' rest rfl (by decide) (by decide)
      | plus rest ends => exact common '+' rest rfl (by decide) (by decide)
      | quote rest => exact common '>' rest rfl (by decide) (by decide)
      | underline rest => exact common '=' rest rfl (by decide) (by decide)
      | number digits rest some all ends =>
          have found := (numbered_line_iff _ digits rest).mpr ⟨rfl, some, all⟩
          simp [escapeNumber, found] at written

theorem preformatted_no_block (s ahead line : Chars) (member : line ∈ Text.lines (preformatted s ahead)) :
    ¬ BlockStart line := by
  have keeps (w : Chars) (free : '\n' ∉ w) : '\n' ∉ escapeNumber w :=
    guards_free w _ (escape_number_guards w) free
  refine split_marker_no_block ahead _ ?_ line member
  intro w found
  rw [lines_on_lines escapeNumber keeps] at found
  obtain ⟨v, plain, rfl⟩ := List.mem_map.mp found
  obtain ⟨u, spelled⟩ := escaped_lines allSpecial s v (by decide) (by decide) plain
  exact escape_number_no_block u v spelled
theorem decimal_not_gap (d : Char) (decimal : Text.isDecimal d) : Text.isGap d = false := by
  cases gap : Text.isGap d with
  | false => rfl
  | true =>
      rcases (by simpa [Text.isGap] using gap : d = ' ' ∨ d = '\t') with rfl | rfl <;>
        exact absurd decimal (by decide)

theorem digits_flush (digits rest : Chars) (all : ∀ d ∈ digits, Text.isDecimal d)
    (flush : rest.head?.any Text.isGap = false) : (digits ++ rest).head?.any Text.isGap = false := by
  cases digits with
  | nil => exact flush
  | cons d ds => simp [decimal_not_gap d (all d List.mem_cons_self)]

theorem markdown_flush (s ahead : Chars) (flush : ∀ line ∈ Text.lines s, line.head?.any Text.isGap = false) :
    (markdown s ahead).head?.any Text.isGap = false := by
  rw [spelled_head true s _ (markdown_spelled s ahead)]
  cases s with
  | nil => rfl
  | cons c s =>
      by_cases newline : c = '\n'
      · rw [newline]
        rfl
      · simpa [Text.firstLine, newline] using flush _ (Text.first_line_mem (c :: s))

theorem number_so_far (gaps digits : Chars) (gap : ∀ c ∈ gaps, Text.isGap c) (some : digits ≠ [])
    (all : ∀ d ∈ digits, Text.isDecimal d) : isNumberSoFar (gaps ++ digits) = true := by
  have trimmed : Text.trimStart Text.isGap (gaps ++ digits) = digits := by
    have begins := digits_flush digits [] all rfl
    rw [List.append_nil] at begins
    rw [Text.trimStart, List.dropWhile_append_of_pos gap, Text.drop_none Text.isGap digits begins]
  have full : digits.isEmpty = false := by simpa using some
  simpa [isNumberSoFar, trimmed, full] using all

theorem marker_end_first_line (s rest : Chars) (line : Text.firstLine s = '.' :: rest)
    (ends : MarkerEnds rest) : startsWithMarkerEnd s = true := by
  cases s with
  | nil => cases line
  | cons c s =>
      by_cases newline : c = '\n'
      · simp [Text.firstLine, newline] at line
      · obtain ⟨rfl, tail⟩ : c = '.' ∧ Text.firstLine s = rest := by
          simpa [Text.firstLine, newline] using line
        cases s with
        | nil => rfl
        | cons d s =>
            by_cases broken : d = '\n'
            · simp [startsWithMarkerEnd, broken]
            · have next : d :: Text.firstLine s = rest := by simpa [Text.firstLine, broken] using tail
              rw [← next] at ends
              rcases ends with rfl | rfl <;> rfl

theorem split_marker_ends (ahead w : Chars) (number : isNumberSoFar ahead) :
    startsWithMarkerEnd (escapeSplitMarker ahead w) = false := by
  unfold escapeSplitMarker
  rw [number, Bool.true_and]
  split
  · rfl
  · rename_i other
    simpa using other

-- The gaps before a number end where its digits begin, and the digits where the period stands. So a
-- number that the text completes either begins in the text, as no line of it does, or has all its
-- digits ahead, and then the period is escaped.
theorem markdown_no_number (s gaps digits : Chars)
    (flush : ∀ line ∈ Text.lines s, line.head?.any Text.isGap = false) (gap : ∀ c ∈ gaps, Text.isGap c)
    (all : ∀ d ∈ digits, Text.isDecimal d) :
    ¬ NumberMarker (Text.firstLine (gaps ++ digits ++ markdown s (gaps ++ digits))) := by
  rintro ⟨others, number, rest, line, blank, some, decimal, ends⟩
  have free : '\n' ∉ gaps ++ digits := by
    intro member
    rcases List.mem_append.mp member with inGaps | inDigits
    · exact absurd (gap _ inGaps) (by decide)
    · exact absurd (all _ inDigits) (by decide)
  have begins := markdown_flush s (gaps ++ digits) flush
  have noBlock := markdown_no_block s (gaps ++ digits) _ (Text.first_line_mem _)
  have splits : digits ≠ [] → startsWithMarkerEnd (markdown s (gaps ++ digits)) = false :=
    fun full => split_marker_ends _ _ (number_so_far gaps digits gap full all)
  rw [Text.first_line_append _ _ free] at line
  generalize markdown s (gaps ++ digits) = written at line begins noBlock splits
  have first : (Text.firstLine written).head?.any Text.isGap = false := by
    cases written with
    | nil => rfl
    | cons c w => by_cases newline : c = '\n' <;> simp_all [Text.firstLine]
  have unindented : digits ++ Text.firstLine written = number ++ '.' :: rest :=
    (Text.run_unique Text.isGap gaps others _ _ gap blank (digits_flush digits _ all first)
      (digits_flush number ('.' :: rest) decimal rfl) (by simpa using line)).2
  have whole := List.takeWhile_append_dropWhile (p := Text.isDecimal) (l := Text.firstLine written)
  have run : ∀ d ∈ digits ++ (Text.firstLine written).takeWhile Text.isDecimal, Text.isDecimal d := by
    intro d member
    rcases List.mem_append.mp member with before | here
    · exact all d before
    · exact List.all_eq_true.mp List.all_takeWhile d here
  rw [← whole, ← List.append_assoc] at unindented
  obtain ⟨counted, period⟩ := Text.run_unique Text.isDecimal _ number _ ('.' :: rest) run decimal
    (Text.drop_stop Text.isDecimal _) (by decide : Text.isDecimal '.' = false) unindented
  by_cases bare : (Text.firstLine written).takeWhile Text.isDecimal = []
  · rw [bare, List.append_nil] at counted
    rw [bare, List.nil_append, period] at whole
    have marker := marker_end_first_line written rest whole.symm ends
    rw [splits (counted ▸ some)] at marker
    cases marker
  · apply noBlock
    rw [← whole, period]
    exact .number _ rest bare (fun d member => run d (List.mem_append_right digits member)) ends

theorem markdown_opens_nothing (s ahead : Chars)
    (flush : ∀ line ∈ Text.lines s, line.head?.any Text.isGap = false)
    (number : ∃ gaps digits, ahead = gaps ++ digits ∧ (∀ c ∈ gaps, Text.isGap c) ∧
      ∀ d ∈ digits, Text.isDecimal d) :
    (∀ before c after, markdown s ahead = before ++ c :: after →
      c ∈ ['*', '_', '`', '[', ']', '(', ')', '~'] → Shielded before) ∧
    (∀ before c after, markdown s ahead = before ++ c :: after → OpensMarkup c after → Shielded before) ∧
    (∀ line ∈ Text.lines (markdown s ahead), ¬ BlockStart line) ∧
    (ahead ≠ [] → ¬ NumberMarker (Text.firstLine (ahead ++ markdown s ahead))) := by
  have shields (before : Chars) (c : Char) (after : Chars) (place : markdown s ahead = before ++ c :: after)
      (other : c ≠ '\\') (needed : c ∈ inlineSpecial ∨ opensMarkup c after) : Shielded before :=
    spelled_shields inlineSpecial true s _ (markdown_spelled s ahead) (by decide) [] before c after shielded_nil
      place other needed
  refine ⟨?_, ?_, markdown_no_block s ahead, ?_⟩
  · intro before c after place listed
    have known : c ≠ '\\' := fun same => absurd (same ▸ listed) (by decide)
    exact shields before c after place known (.inl (List.mem_cons_of_mem _ listed))
  · intro before c after place opens
    have found := (opens_markup_iff c after).mpr opens
    have known : c ≠ '\\' := by
      rcases opens_markup_char c after found with rfl | rfl <;> decide
    exact shields before c after place known (.inr found)
  · intro _
    obtain ⟨gaps, digits, rfl, gap, all⟩ := number
    exact markdown_no_number s gaps digits flush gap all

theorem markdown_opens_nothing_after_number :
    markdown ". a <b> [c] &lt;".toList " 1".toList = "\\. a \\<b> \\[c\\] \\&lt;".toList ∧
    ¬ NumberMarker (Text.firstLine (" 1".toList ++ markdown ". a <b> [c] &lt;".toList " 1".toList)) :=
  ⟨by decide, (markdown_opens_nothing ". a <b> [c] &lt;".toList " 1".toList (by decide)
    ⟨[' '], ['1'], rfl, List.forall_mem_singleton.mpr rfl, List.forall_mem_singleton.mpr rfl⟩).2.2.2 (by decide)⟩

end Downmark.Escape
