import Downmark.Proofs.RuleTexts
/-!
What quotes and list items do to the lines of their content. Main statements: between its runs of newlines
the output of a quote is its content line by line behind a mark, and that of an item is its content behind
the marker, later lines indented.
-/

set_option autoImplicit false

namespace Downmark

def isWritten (line : Chars) : Bool := line.any fun c => !Text.isBlank c

def quoted (text : Chars) : Chars :=
  Text.unlines ((Text.lines text).map fun line => if isWritten line then '>' :: ' ' :: line else ['>'])

def behind (marker text : Chars) : Chars :=
  match Text.lines text with
  | [] => []
  | first :: rest =>
      Text.unlines ((marker ++ first) :: rest.map fun line =>
        if line.isEmpty then line else Text.spaces marker.length ++ line)

-- Text that needs no trimming.
structure Solid (s : Chars) : Prop where
  some : s ≠ []
  first : s.head?.any Text.isNewline = false
  last : s.getLast?.any Text.isBlank = false

theorem core_kept (s : Chars) (first : s.head?.any Text.isNewline = false)
    (last : s.getLast?.any Text.isNewline = false) : core s = s := by
  rw [core, Text.trim, Text.trimStart, Text.drop_none _ s first, Text.trim_end_none _ s last]

theorem newline_blank (c : Option Char) (solid : c.any Text.isBlank = false) : c.any Text.isNewline = false := by
  cases c with
  | none => rfl
  | some c =>
      have other : c ≠ '\n' := by
        rintro rfl
        exact absurd solid (by decide)
      simpa [Text.isNewline] using other

theorem solid_core (s : Chars) (solid : Solid s) : core s = s := core_kept s solid.first (newline_blank _ solid.last)

theorem core_tail (s tail : Chars) (newlines : ∀ c ∈ tail, Text.isNewline c) : core (s ++ tail) = core s := by
  rw [core, ← Text.trim_both, Text.trim_end_append, Text.trim_end_all _ tail newlines, if_pos List.isEmpty_nil,
    Text.trim_both]
  rfl

theorem core_front (s run : Chars) (newlines : ∀ c ∈ run, Text.isNewline c) : core (run ++ s) = core s := by
  rw [core, Text.trim, Text.trim_start_append, Text.trim_start_all _ run newlines, if_pos List.isEmpty_nil]
  rfl

theorem core_apart (s : Chars) : core (Block.apart s) = core s := by
  have shape : Block.apart s = ['\n', '\n'] ++ (s ++ ['\n', '\n']) := rfl
  have newlines : ∀ c ∈ ['\n', '\n'], Text.isNewline c := by simp [Text.isNewline]
  rw [shape, core_front _ _ newlines, core_tail _ _ newlines]

theorem core_join_nil (s : Chars) : core (join [] s) = core s := by
  obtain ⟨run, whole, newlines⟩ := Text.trim_start_run Text.isNewline s
  obtain ⟨k, shape, -⟩ := join_seam [] s
  have none : Text.trimEnd Text.isNewline [] = [] := rfl
  rw [shape, none, List.nil_append, core_front _ _ (by simp [Text.isNewline]), ← core_front _ run newlines, ← whole]

theorem solid_end (s : Chars) (solid : Solid (core s)) :
    (Text.trimEnd Text.isNewline s).getLast?.any Text.isBlank = false := by
  obtain ⟨run, whole, -⟩ := Text.trim_start_run Text.isNewline (Text.trimEnd Text.isNewline s)
  have last := List.getLast?_eq_some_getLast solid.some
  have stop := solid.last
  rw [Text.trim_both] at whole
  rw [whole, List.getLast?_append]
  change ((core s).getLast?.or _).any Text.isBlank = false
  rw [last] at stop ⊢
  exact stop

theorem quote_line_eq (line : Chars) :
    Block.quoteLine line = if isWritten line then '>' :: ' ' :: line else ['>'] := by
  unfold Block.quoteLine Text.isBlankText isWritten
  rw [List.all_eq_not_any_not]
  cases line.any fun c => !Text.isBlank c <;> rfl

theorem quoted_lines (text : Chars) : quoted text = Escape.onLines Block.quoteLine text := by
  simp only [quoted, ← quote_line_eq]
  rfl

theorem quote_text_eq (content : Chars) : Block.quoteText content = quoted (core content) := by
  rw [quoted_lines]
  rfl

theorem quoted_last (text : Chars) (c : Char) (last : text.getLast? = some c) (solid : Text.isBlank c = false) :
    (Escape.onLines Block.quoteLine text).getLast? = some c := by
  induction text using Text.line_induction with
  | last line free =>
      have written : isWritten line = true :=
        List.any_eq_true.mpr ⟨c, List.mem_of_getLast? last, by simp [solid]⟩
      rw [Escape.on_lines_free _ line free, quote_line_eq, if_pos written, List.getLast?_cons, List.getLast?_cons, last]
      rfl
  | more line rest free ih =>
      cases rest with
      | nil =>
          obtain rfl : '\n' = c := by simpa using last
          exact absurd solid (by decide)
      | cons d more =>
          have later : (d :: more).getLast? = some c := by
            rw [List.getLast?_append, List.getLast?_cons_cons] at last
            simpa [List.getLast?_cons] using last
          rw [Escape.on_lines_newline _ line _ free, List.getLast?_append, List.getLast?_cons, ih later]
          rfl

theorem quote_line_first (line : Chars) : ∃ rest, Block.quoteLine line = '>' :: rest := by
  unfold Block.quoteLine
  split
  · exact ⟨[], rfl⟩
  · exact ⟨' ' :: line, rfl⟩

theorem quoted_first (text : Chars) : ∃ rest, quoted text = '>' :: rest := by
  rw [quoted_lines]
  induction text using Text.line_induction with
  | last line free =>
      rw [Escape.on_lines_free _ line free]
      exact quote_line_first line
  | more line rest free _ =>
      obtain ⟨first, shape⟩ := quote_line_first line
      rw [Escape.on_lines_newline _ line rest free, shape]
      exact ⟨_, rfl⟩

theorem quoted_solid (text : Chars) (solid : Solid text) : Solid (quoted text) := by
  obtain ⟨rest, shape⟩ := quoted_first text
  have last := List.getLast?_eq_some_getLast solid.some
  have stop := solid.last
  rw [last, Option.any_some] at stop
  refine ⟨by simp [shape], by rw [shape]; rfl, ?_⟩
  rw [quoted_lines, quoted_last text _ last stop]
  exact stop

theorem indent_line_last (indent line : Chars) : (indentLine indent line).getLast? = line.getLast? := by
  unfold indentLine
  cases line with
  | nil => rfl
  | cons c rest =>
      rw [if_neg (by simp), List.getLast?_append, List.getLast?_cons]
      rfl

theorem indented_last (indent s : Chars) : (Escape.onLines (indentLine indent) s).getLast? = s.getLast? := by
  induction s using Text.line_induction with
  | last line free => rw [Escape.on_lines_free _ line free, indent_line_last]
  | more line rest free ih =>
      rw [Escape.on_lines_newline _ line rest free, List.getLast?_append, List.getLast?_append, List.getLast?_cons,
        List.getLast?_cons, ih]
      rfl

theorem indent_lines_last (indent s : Chars) : (Block.indentLines s indent).getLast? = s.getLast? := by
  induction s using Text.line_induction with
  | last line free => rw [indent_lines_free indent line free]
  | more line rest free _ =>
      rw [indent_lines_newline indent line rest free, List.getLast?_append, List.getLast?_append, List.getLast?_cons,
        List.getLast?_cons, indented_last]

theorem indented_final (indent s : Chars) :
    Escape.onLines (indentLine indent) (s ++ ['\n']) = Escape.onLines (indentLine indent) s ++ ['\n'] := by
  induction s using Text.line_induction with
  | last line free =>
      rw [Escape.on_lines_newline _ line [] free, Escape.on_lines_free _ line free]
      rfl
  | more line rest free ih =>
      rw [List.append_assoc, List.cons_append, Escape.on_lines_newline _ line _ free,
        Escape.on_lines_newline _ line _ free, ih, List.append_assoc, List.cons_append]

-- A final newline opens an empty line, and that one is not indented.
theorem indent_lines_final (indent s : Chars) :
    Block.indentLines (s ++ ['\n']) indent = Block.indentLines s indent ++ ['\n'] := by
  induction s using Text.line_induction with
  | last line free =>
      rw [indent_lines_newline indent line [] free, indent_lines_free indent line free]
      rfl
  | more line rest free _ =>
      rw [List.append_assoc, List.cons_append, indent_lines_newline indent line _ free,
        indent_lines_newline indent line _ free, indented_final, List.append_assoc, List.cons_append]

theorem behind_eq (marker text : Chars) :
    behind marker text = marker ++ Block.indentLines text (Text.spaces marker.length) := by
  unfold behind Block.indentLines
  obtain ⟨first, rest, shape⟩ := List.exists_cons_of_ne_nil (Text.lines_ne_nil text)
  rw [shape]
  dsimp only
  cases rest with
  | nil => simp [Text.unlines, List.intercalate]
  | cons line more =>
      rw [List.map_cons]
      simp only [Text.unlines_cons _ _ (List.cons_ne_nil _ _), List.append_assoc]

theorem behind_solid (marker text : Chars) (marked : Inked marker) (solid : Solid text) :
    Solid (behind marker text) := by
  obtain ⟨c, rest, rfl, ink⟩ := marked
  rw [behind_eq]
  refine ⟨by simp, by simpa [Text.isNewline] using ink.newline, ?_⟩
  have last := List.getLast?_eq_some_getLast solid.some
  have stop := solid.last
  rw [List.getLast?_append, indent_lines_last, last]
  rw [last] at stop
  exact stop

theorem one_final_newline_cases (content : Chars) :
    Block.oneFinalNewline content = core content ∨ Block.oneFinalNewline content = core content ++ ['\n'] := by
  unfold Block.oneFinalNewline
  dsimp only
  split
  · exact .inr rfl
  · rename_i other
    refine .inl (Text.trim_end_none _ _ ?_).symm
    cases last : (Text.trimStart Text.isNewline content).getLast? with
    | none => rfl
    | some c => simpa [last, Text.isNewline] using other

theorem item_core (marker content : Chars) (marked : Inked marker) (solid : Solid (core content)) :
    core (Block.itemText marker content) = behind marker (core content) := by
  have whole := solid_core _ (behind_solid marker _ marked solid)
  rw [Block.itemText]
  rcases one_final_newline_cases content with same | newline
  · rw [same, ← behind_eq, whole]
  · rw [newline, indent_lines_final, ← List.append_assoc, ← behind_eq, core_tail _ _ (by simp [Text.isNewline]), whole]

end Downmark
