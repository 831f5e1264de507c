import Downmark.Proofs.OutlineText
import Downmark.Proofs.TableRows
import Downmark.Proofs.TableRules
/-!
The lines of pipe tables. Each cell writes its text between bars and each row its line, with a line of borders below
it if it is a heading row. Main statement: a table of rows and sections is written as the line of its first row, a
line with one border for each cell of that row, and the lines of the other rows; these have lines of borders of
their own exactly if they are heading rows, too.
-/

set_option autoImplicit false

namespace Downmark

/-- A text that may follow others as it is: nothing, or a solid text after at most one newline. -/
inductive Follows : Chars → Prop where
  | nothing : Follows []
  | solid (s : Chars) (solid : Solid s) : Follows s
  | line (s : Chars) (solid : Solid s) : Follows ('\n' :: s)

theorem join_follows (output w : Chars) (ended : output.getLast?.any Text.isNewline = false) (follows : Follows w) :
    join output w = output ++ w := by
  cases follows with
  | nothing => exact join_plain output [] ended rfl
  | solid s solid => exact join_plain output w ended solid.first
  | line s solid => exact join_before_break output s ended solid.first

theorem follows_ended (output w : Chars) (ended : output.getLast?.any Text.isNewline = false) (follows : Follows w) :
    (output ++ w).getLast?.any Text.isNewline = false := by
  have stop (s : Chars) (solid : Solid s) : (output ++ s).getLast?.any Text.isNewline = false := by
    rw [List.getLast?_append, List.getLast?_eq_some_getLast solid.some]
    have stop := newline_blank _ solid.last
    rwa [List.getLast?_eq_some_getLast solid.some] at stop
  cases follows with
  | nothing => rwa [List.append_nil]
  | solid s solid => exact stop w solid
  | line s solid =>
      rw [List.append_cons, List.getLast?_append, List.getLast?_eq_some_getLast solid.some]
      have stop := newline_blank _ solid.last
      rwa [List.getLast?_eq_some_getLast solid.some] at stop

namespace Gfm

/-- Lines, a newline before each of them. -/
def starting (lines : List Chars) : Chars := lines.flatMap ('\n' :: ·)

theorem starting_append (a b : List Chars) : starting (a ++ b) = starting a ++ starting b := List.flatMap_append

theorem starting_unlines (line : Chars) (rest : List Chars) :
    starting (line :: rest) = '\n' :: Text.unlines (line :: rest) := by
  induction rest generalizing line with
  | nil => simp [starting, Text.unlines, List.intercalate]
  | cons next rest ih =>
      rw [Text.unlines_cons line _ (by simp), ← ih next]
      rfl

theorem join_started (line : Chars) (rest : List Chars) (each : ∀ l ∈ line :: rest, Line l) :
    join [] (Block.apart ('\n' :: Text.unlines (line :: rest))) = Block.apart (Text.unlines (line :: rest)) := by
  have solid := lines_solid (line :: rest) (by simp) each
  have first : (Text.unlines (line :: rest) ++ ['\n', '\n']).head?.any Text.isNewline = false := by
    obtain ⟨c, tail, text⟩ := List.exists_cons_of_ne_nil solid.some
    rw [text] at solid ⊢
    exact solid.first
  exact join_breaks [] _ rfl first 0 3

theorem starting_follows (lines : List Chars) (each : ∀ line ∈ lines, Line line) : Follows (starting lines) := by
  cases lines with
  | nil => exact .nothing
  | cons line rest =>
      rw [starting_unlines]
      exact .line _ (lines_solid _ (by simp) each)

theorem halve_line (line rest : Chars) (free : '\n' ∉ line) :
    halveNewlines (line ++ rest) = line ++ halveNewlines rest := by
  induction line with
  | nil => rfl
  | cons c line ih =>
      rw [List.mem_cons, not_or] at free
      rw [List.cons_append, halveNewlines, ih free.2, List.cons_append]
      rintro s rfl
      exact absurd rfl free.1

/-- No two newlines come together between lines that are not empty. -/
theorem halve_starting (lines : List Chars) (each : ∀ line ∈ lines, Line line) :
    halveNewlines (starting lines) = starting lines := by
  induction lines with
  | nil => rfl
  | cons line rest ih =>
      rw [List.forall_mem_cons] at each
      have whole : starting (line :: rest) = '\n' :: (line ++ starting rest) := rfl
      rw [whole, halveNewlines, halve_line line _ each.1.free, ih each.2]
      intro s _ same
      obtain ⟨c, tail, rfl⟩ := List.exists_cons_of_ne_nil each.1.some
      obtain rfl := (List.cons.inj same).1
      exact each.1.free List.mem_cons_self

/-- The texts of some cells with bars around them. -/
def rowLine : Bool → List Chars → Chars
  | _, [] => []
  | first, text :: rest => barred first text ++ rowLine false rest

/-- The line of borders below a row, with one border for each of its cells. -/
def borderLine (row : Site) : Chars := rowLine true ((cellsOf row).map fun cell => border (cell.node.attr "align"))

theorem borders_line {μ : Type} (first : Bool) (ns : List (Node μ)) :
    borders first ns = rowLine first (ns.map fun n => border (n.attr "align")) := by
  induction ns generalizing first with
  | nil => rfl
  | cons n rest ih => rw [borders, ih, List.map_cons, rowLine]

theorem barred_line (first : Bool) (text : Chars) (free : '\n' ∉ text) : Line (barred first text) := by
  refine ⟨by simp [barred], ?_, ?_⟩
  · cases first <;> simp [barred, free]
  · rw [barred, List.getLast?_append]
    rfl

theorem row_line (first : Bool) (texts : List Chars) (some : texts ≠ []) (free : ∀ text ∈ texts, '\n' ∉ text) :
    Line (rowLine first texts) := by
  induction texts generalizing first with
  | nil => exact absurd rfl some
  | cons text rest ih =>
      rw [List.forall_mem_cons] at free
      have here := barred_line first text free.1
      by_cases last : rest = []
      · rw [last, rowLine, rowLine, List.append_nil]
        exact here
      · exact line_indented _ _ here.free (ih false last free.2)

theorem border_free (align : Chars) : '\n' ∉ border align := by
  unfold border
  split <;> decide

theorem border_line (row : Site) (some : cellsOf row ≠ []) : Line (borderLine row) := by
  refine row_line true _ (by simpa using some) fun text member => ?_
  obtain ⟨cell, -, rfl⟩ := List.mem_map.mp member
  exact border_free _

theorem cell_text_free (content : Chars) : '\n' ∉ cellText content := by
  have spaced : '\n' ∉ Text.replaceChar '\n' [' '] content := by
    intro member
    obtain ⟨c, -, written⟩ := List.mem_flatMap.mp member
    split at written
    · cases List.mem_singleton.mp written
    · rename_i other
      exact other (beq_iff_eq.mpr (List.mem_singleton.mp written).symm)
  have stripped (s : Chars) : ∀ c ∈ Text.strip s, c ∈ s := fun c member =>
    (List.dropWhile_sublist _).mem (List.mem_reverse.mp ((List.dropWhile_sublist _).mem (List.mem_reverse.mp member)))
  intro member
  obtain ⟨c, inside, written⟩ := List.mem_flatMap.mp member
  have same : '\n' = c := by
    split at written
    · simpa using written
    · exact List.mem_singleton.mp written
  rw [← same] at inside
  exact spaced (stripped _ _ inside)

end Gfm

namespace Render

open Node Gfm

section

variable (table : RuleTable) (o : Options)

theorem block_written (outer : List Open) (isBlock : Bool) (path : List Step) (output : Chars) (m : Mark) (t : String)
    (a : Attrs) (ks : List Marked) (rule : Rule) (f : Chars → Site → Options → State → Chars)
    (block : isBlockTag t = true) (found : table.find ⟨.element m t a ks, path⟩ o m.blank = .ok rule)
    (renders : rule.rendersChildren = true) (writes : rule.replacement = .ofFunction f) (written : Chars) (s u : State)
    (worked : elementText table o outer isBlock path output m t a ks s = .ok written u) :
    ∃ content middle, nodes table o (⟨output, isBlock⟩ :: outer) true (.element m t a) path [] [] ks
        (opened o ⟨.element m t a ks, path⟩ s) = .ok content middle ∧
      written = f content ⟨.element m t a ks, path⟩ o middle := by
  obtain ⟨other, content, middle, last, chosen, read, replaced, -⟩ :=
    element_steps table o outer isBlock path output m t a ks written s u worked
  obtain rfl : rule = other := Except.ok.inj (found.symm.trans chosen)
  have border : Node.isBlock (.element m t a ks) = true := block
  rw [contentText, if_pos renders, block] at read
  rw [replace, border, Bool.true_or, if_pos rfl, writes] at replaced
  cases replaced
  exact ⟨content, middle, read, rfl⟩

/-- The text of a cell is what its children are written as, on one line. -/
inductive CellText : Site → Chars → Prop where
  | written (m : Mark) (t : String) (a : Attrs) (ks : List Marked) (path : List Step) (outer : List Open)
      (s u : State) (content : Chars)
      (worked : nodes table o outer true (.element m t a) path [] [] ks s = .ok content u) :
      CellText ⟨.element m t a ks, path⟩ (cellText content)

def CellWritten (cell : Site) (written : Chars) : Prop :=
  ∃ text, CellText table o cell text ∧ written = barred (isFirstCell cell) text

/-- The line of a row has the texts of its cells, each between bars. -/
def RowLine (row : Site) (line : Chars) : Prop :=
  ∃ texts, List.Forall₂ (CellText table o) (cellsOf row) texts ∧ line = rowLine true texts

/-- The lines of some rows, with a line of borders below each heading row. -/
inductive RowLines : List Site → List Chars → Prop where
  | nil : RowLines [] []
  | cons (row : Site) (line : Chars) (rest : List Site) (lines : List Chars) (some : cellsOf row ≠ [])
      (here : RowLine table o row line) (later : RowLines rest lines) :
      RowLines (row :: rest) (line :: (if isHeadingRow row then [borderLine row] else []) ++ lines)

def RowsWritten (part : Site) (written : Chars) : Prop :=
  ∃ lines, RowLines table o (rowsIn part) lines ∧ written = starting lines

theorem row_lines_append (a b : List Site) (x y : List Chars) (first : RowLines table o a x)
    (later : RowLines table o b y) : RowLines table o (a ++ b) (x ++ y) := by
  induction first with
  | nil => exact later
  | cons row line rest lines some here _ ih =>
      rw [List.cons_append, List.append_assoc]
      exact .cons row line _ _ some here ih

theorem cell_texts_free (cells : List Site) (texts : List Chars) (each : List.Forall₂ (CellText table o) cells texts) :
    ∀ text ∈ texts, '\n' ∉ text := by
  induction each with
  | nil => exact fun _ member => nomatch member
  | cons here _ ih =>
      refine List.forall_mem_cons.mpr ⟨?_, ih⟩
      cases here
      exact cell_text_free _

theorem row_line_line (row : Site) (line : Chars) (some : cellsOf row ≠ []) (here : RowLine table o row line) :
    Line line := by
  obtain ⟨texts, cells, rfl⟩ := here
  refine row_line true texts ?_ (cell_texts_free table o _ texts cells)
  rintro rfl
  exact some (List.forall₂_nil_right_iff.mp cells)

theorem row_lines_lines (rows : List Site) (lines : List Chars) (written : RowLines table o rows lines) :
    ∀ line ∈ lines, Line line := by
  induction written with
  | nil => exact fun _ member => nomatch member
  | cons row line rest lines some here _ ih =>
      simp only [List.cons_append, List.forall_mem_cons, List.forall_mem_append]
      refine ⟨row_line_line table o row line some here, ?_, ih⟩
      split
      · exact List.forall_mem_singleton.mpr (border_line row some)
      · exact fun _ member => nomatch member

theorem hushed_output (s : State) (opened : List Open) (m : Mark) (data : Chars) (hushed : m.shown = some []) :
    textOutput s o opened m data = [] := by
  have text : s.textOf o m data = [] := by rw [State.textOf, hushed]
  rw [textOutput, text]
  dsimp only
  split
  · rfl
  · split <;> rfl

/-- What is written for children of one kind stands one after the other, the texts between them being gone. -/
theorem parts_written (part : Marked → Prop) (Writes : Site → Chars → Prop)
    (each : ∀ outer isBlock path output m t a ks s u written, part (.element m t a ks) → Sound (.element m t a ks) →
      elementText table o outer isBlock path output m t a ks s = .ok written u →
        Follows written ∧ Writes ⟨.element m t a ks, path⟩ written)
    (outer : List Open) (isBlock : Bool) (head : Head) (path : List Step) (before ks : List Marked)
    (fit : ∀ k ∈ ks, k.Fits part Hushed) (sound : ∀ k ∈ ks, Sound k) (output content : Chars) (s u : State)
    (ended : output.getLast?.any Text.isNewline = false)
    (worked : nodes table o outer isBlock head path before output ks s = .ok content u) :
    ∃ written, content = output ++ written.flatten ∧
      List.Forall₂ Writes ((Site.kidsAmong head path before ks).filter fun site => site.node.isElement) written := by
  induction ks generalizing before output s with
  | nil =>
      cases worked
      exact ⟨[], (List.append_nil _).symm, .nil⟩
  | cons n rest ih =>
      rw [List.forall_mem_cons] at fit sound
      rw [nodes] at worked
      obtain ⟨next, t, first, later⟩ := (bind_ok_iff _ _ _ _ _).mp worked
      cases n with
      | text m data =>
          have same : next = output := by
            cases first
            rw [hushed_output o _ _ m data fit.1]
            exact (join_follows output [] ended .nothing).trans (List.append_nil output)
          subst same
          exact ih _ fit.2 sound.2 _ _ ended later
      | comment m data =>
          cases first
          exact ih _ fit.2 sound.2 _ _ ended later
      | document m kids => exact fit.1.elim
      | element m tag a kids =>
          rw [node_element] at first
          obtain ⟨written, middle, here, joined⟩ := (bind_ok_iff _ _ _ _ _).mp first
          obtain ⟨follows, writes⟩ := each _ _ _ _ _ _ _ _ _ _ _ fit.1 sound.1 here
          cases joined
          rw [join_follows output written ended follows] at later
          obtain ⟨more, whole, others⟩ := ih _ fit.2 sound.2 _ _ (follows_ended output written ended follows) later
          exact ⟨written :: more, by rw [whole, List.flatten_cons, List.append_assoc], .cons writes others⟩

theorem solid_shown (m : Mark) (t : String) (a : Attrs) (ks : List Marked) (sound : Sound (.element m t a ks))
    (solid : (Node.element m t a ks).isSolid = true) : m.blank = false := by
  rw [sound.flagged.1, solid]
  rfl

theorem cell_solid (n : Marked) (cell : isCell n = true) : n.isSolid = true := by
  cases n with
  | element m t a ks =>
      rw [element_solid]
      simp only [isCell, isNamed, Bool.or_eq_true, beq_iff_eq] at cell
      rcases cell with rfl | rfl <;> rfl
  | text | comment | document => cases cell

theorem kids_sound (m : Mark) (t : String) (a : Attrs) (ks : List Marked) (sound : Sound (.element m t a ks)) :
    ∀ k ∈ ks, Sound k := fun k member =>
  sound_below _ k sound (List.mem_cons_of_mem _ (kid_below (.element m t a ks) k member))

-- Only the first of the cells has no cell before it.
theorem cells_in_line (m : Mark) (t : String) (a : Attrs) (path : List Step) (before ks : List Marked)
    (fit : ∀ k ∈ ks, k.Fits (isCell · = true) Hushed) (sound : ∀ k ∈ ks, Sound k) (written : List Chars)
    (each : List.Forall₂ (CellWritten table o)
      ((Site.kidsAmong (.element m t a) path before ks).filter fun site => site.node.isElement) written) :
    ∃ texts, List.Forall₂ (CellText table o)
        ((Site.kidsAmong (.element m t a) path before ks).filter fun site => isCell site.node) texts ∧
      written.flatten = rowLine (!before.any isCell) texts := by
  induction ks generalizing before written with
  | nil =>
      cases each
      exact ⟨[], .nil, rfl⟩
  | cons n rest ih =>
      rw [List.forall_mem_cons] at fit sound
      cases n with
      | text | comment => exact ih _ fit.2 sound.2 written each
      | document m kids => exact fit.1.elim
      | element m' t' a' kids =>
          have cell : isCell (.element m' t' a' kids) = true := fit.1
          cases each with
          | cons here others =>
              obtain ⟨inside, text, rfl⟩ := here
              obtain ⟨texts, later, whole⟩ := ih _ fit.2 sound.2 _ others
              refine ⟨inside :: texts, ?_, ?_⟩
              · rw [Site.kidsAmong, List.filter_cons_of_pos (p := fun site : Site => isCell site.node) cell]
                exact .cons text later
              · rw [List.any_cons, cell, Bool.true_or] at whole
                rw [List.flatten_cons, whole, rowLine,
                  first_cell m t a path before rest _ (sound.1.adopted _ List.mem_cons_self)]
                rfl

theorem rows_in_parts (parts : List Site) (written : List Chars)
    (each : List.Forall₂ (RowsWritten table o) (parts.filter fun site => site.node.isElement) written) :
    ∃ lines, RowLines table o (parts.flatMap rowsIn) lines ∧ written.flatten = starting lines := by
  induction parts generalizing written with
  | nil =>
      cases each
      exact ⟨[], .nil, rfl⟩
  | cons part rest ih =>
      obtain ⟨n, path⟩ := part
      cases n with
      | text | comment | document => exact ih written each
      | element m t a ks =>
          cases each with
          | cons here others =>
              obtain ⟨lines, first, rfl⟩ := here
              obtain ⟨more, later, whole⟩ := ih _ others
              exact ⟨lines ++ more, row_lines_append table o _ _ _ _ first later,
                by rw [List.flatten_cons, whole, starting_append]⟩

theorem cells_nodes (m : Mark) (t : String) (a : Attrs) (ks : List Marked) (path : List Step) :
    (cellsOf ⟨.element m t a ks, path⟩).map Site.node = cells (.element m t a ks) := by
  change ((Site.kidsAmong (.element m t a) path [] ks).filter (isCell ∘ Site.node)).map Site.node = ks.filter isCell
  rw [← List.filter_map, Site.kids_nodes]

theorem cells_some (m : Mark) (t : String) (a : Attrs) (ks : List Marked) (path : List Step)
    (some : ks.any isCell = true) : cellsOf ⟨.element m t a ks, path⟩ ≠ [] := by
  intro none
  have nodes := cells_nodes m t a ks path
  rw [none, List.map_nil, eq_comm, cells, List.filter_eq_nil_iff] at nodes
  obtain ⟨k, member, cell⟩ := List.any_eq_true.mp some
  exact nodes k member cell

theorem row_starting (m : Mark) (t : String) (a : Attrs) (ks : List Marked) (path : List Step) (line : Chars) :
    '\n' :: line ++ (if isHeadingRow ⟨.element m t a ks, path⟩ then '\n' :: borders true (cells (.element m t a ks))
      else []) = starting (line :: (if isHeadingRow ⟨.element m t a ks, path⟩ then
        [borderLine ⟨.element m t a ks, path⟩] else []) ++ []) := by
  have below : borders true (cells (.element m t a ks)) = borderLine ⟨.element m t a ks, path⟩ := by
    rw [borders_line, ← cells_nodes m t a ks path, List.map_map]
    rfl
  rw [below]
  split <;> simp [starting]

theorem cells_solid (ks : List Marked) (some : ks.any isCell = true) : ks.any isSolid = true := by
  obtain ⟨k, member, cell⟩ := List.any_eq_true.mp some
  exact List.any_eq_true.mpr ⟨k, member, cell_solid k cell⟩

theorem section_solid (m : Mark) (t : String) (a : Attrs) (ks : List Marked)
    (section_ : isSection (.element m t a ks) = true) :
    isBlockTag t = true ∧ (Node.element m t a ks).isSolid = true := by
  rw [element_solid]
  simp only [isSection, isNamed, Bool.or_eq_true, beq_iff_eq] at section_
  rcases section_ with (rfl | rfl) | rfl <;> exact ⟨by decide, rfl⟩

theorem solid_parent (m : Mark) (t : String) (a : Attrs) (ks : List Marked) (solid : ks.any isSolid = true) :
    (Node.element m t a ks).isSolid = true := by rw [element_solid, solid, Bool.or_true]

theorem rows_of_section (m : Mark) (t : String) (a : Attrs) (ks : List Marked) (path : List Step)
    (section_ : isSection (.element m t a ks) = true) (rows : ∀ k ∈ ks, k.Fits (IsRow Hushed) Hushed) :
    rowsIn ⟨.element m t a ks, path⟩ = (Site.kidsAmong (.element m t a) path [] ks).flatMap rowsIn := by
  have alone : ∀ site ∈ Site.kidsAmong (.element m t a) path [] ks, rowsIn site =
      [site].filter fun site => site.node.isNamed "tr" := by
    intro site member
    have row := rows site.node (by rw [← Site.kids_nodes (.element m t a) path [] ks]; exact List.mem_map_of_mem member)
    rw [rowsIn, if_neg]
    obtain ⟨n, path⟩ := site
    cases n with
    | element m t a ks =>
        obtain rfl : t = "tr" := beq_iff_eq.mp (show IsRow Hushed _ from row).named
        exact Bool.false_ne_true
    | text | comment | document => exact Bool.false_ne_true
  rw [rowsIn, if_pos section_, List.flatMap_congr alone, ← List.filter_flatMap, List.flatMap_singleton']
  rfl

section

variable (tabling : Tabling table.plugins)

include tabling

theorem cell_content (outer : List Open) (isBlock : Bool) (path : List Step) (output : Chars) (m : Mark) (t : String)
    (a : Attrs) (ks : List Marked) (s u : State) (written : Chars) (cell : isCell (.element m t a ks) = true)
    (sound : Sound (.element m t a ks))
    (worked : elementText table o outer isBlock path output m t a ks s = .ok written u) :
    ∃ content middle, nodes table o (⟨output, isBlock⟩ :: outer) true (.element m t a) path [] [] ks s =
        .ok content middle ∧ written = barred (isFirstCell ⟨.element m t a ks, path⟩) (cellText content) := by
  have found := cell_found table tabling o m t a ks path cell
  rw [← solid_shown m t a ks sound (cell_solid _ cell)] at found
  have uncounted : opened o ⟨.element m t a ks, path⟩ s = s := by
    simp only [isCell, isNamed, Bool.or_eq_true, beq_iff_eq] at cell
    rcases cell with rfl | rfl <;> rfl
  have parts := block_written table o outer isBlock path output m t a ks cellRule _ (cell_block false _ cell).1 found rfl
    rfl written s u worked
  rwa [uncounted] at parts

theorem row_content (outer : List Open) (isBlock : Bool) (path : List Step) (output : Chars) (m : Mark) (t : String)
    (a : Attrs) (ks : List Marked) (s u : State) (written : Chars) (text : Mark → Chars → Prop)
    (row : IsRow text (.element m t a ks)) (sound : Sound (.element m t a ks))
    (worked : elementText table o outer isBlock path output m t a ks s = .ok written u) :
    ∃ content middle, nodes table o (⟨output, isBlock⟩ :: outer) true (.element m t a) path [] [] ks s =
        .ok content middle ∧
      written = '\n' :: content ++ if isHeadingRow ⟨.element m t a ks, path⟩ then
        '\n' :: borders true (cells (.element m t a ks)) else [] := by
  obtain rfl : t = "tr" := beq_iff_eq.mp row.named
  have found := row_found table tabling o m "tr" a ks path rfl
  rw [← solid_shown m "tr" a ks sound (solid_parent m "tr" a ks (cells_solid ks row.some))] at found
  exact block_written table o outer isBlock path output m "tr" a ks rowRule _ (by decide) found rfl rfl written s u worked

theorem cell_written (outer : List Open) (isBlock : Bool) (path : List Step) (output : Chars) (m : Mark) (t : String)
    (a : Attrs) (ks : List Marked) (s u : State) (written : Chars) (cell : isCell (.element m t a ks) = true)
    (sound : Sound (.element m t a ks))
    (worked : elementText table o outer isBlock path output m t a ks s = .ok written u) :
    Follows written ∧ CellWritten table o ⟨.element m t a ks, path⟩ written := by
  obtain ⟨content, middle, read, rfl⟩ :=
    cell_content table o tabling outer isBlock path output m t a ks s u written cell sound worked
  have line := barred_line (isFirstCell ⟨.element m t a ks, path⟩) _ (cell_text_free content)
  refine ⟨.solid _ ⟨line.some, ?_, line.last⟩, cellText content, .written m t a ks path _ _ middle content read, rfl⟩
  unfold barred
  split <;> rfl

theorem row_written (outer : List Open) (isBlock : Bool) (path : List Step) (output : Chars) (m : Mark) (t : String)
    (a : Attrs) (ks : List Marked) (s u : State) (written : Chars) (row : IsRow Hushed (.element m t a ks))
    (sound : Sound (.element m t a ks))
    (worked : elementText table o outer isBlock path output m t a ks s = .ok written u) :
    Follows written ∧ RowsWritten table o ⟨.element m t a ks, path⟩ written := by
  obtain rfl : t = "tr" := beq_iff_eq.mp row.named
  obtain ⟨content, middle, read, rfl⟩ :=
    row_content table o tabling outer isBlock path output m "tr" a ks s u written Hushed row sound worked
  obtain ⟨cells, whole, each⟩ := parts_written table o (isCell · = true) (CellWritten table o)
    (cell_written table o tabling) _ _ _ _ [] ks row.cells (kids_sound m "tr" a ks sound) [] content _ _ rfl read
  obtain ⟨texts, cells, line⟩ :=
    cells_in_line table o m "tr" a path [] ks row.cells (kids_sound m "tr" a ks sound) _ each
  have written := RowLines.cons ⟨.element m "tr" a ks, path⟩ _ [] [] (cells_some m "tr" a ks path row.some)
    ⟨texts, cells, rfl⟩ .nil
  rw [whole, line, row_starting]
  exact ⟨starting_follows _ (row_lines_lines table o _ _ written), _, written, rfl⟩

theorem section_written (outer : List Open) (isBlock : Bool) (path : List Step) (output : Chars) (m : Mark) (t : String)
    (a : Attrs) (ks : List Marked) (s u : State) (written : Chars) (section_ : isSection (.element m t a ks) = true)
    (rows : ∀ k ∈ ks, k.Fits (IsRow Hushed) Hushed) (sound : Sound (.element m t a ks))
    (worked : elementText table o outer isBlock path output m t a ks s = .ok written u) :
    Follows written ∧ RowsWritten table o ⟨.element m t a ks, path⟩ written := by
  have found := section_found table tabling o m t a ks path section_
  obtain ⟨block, solid⟩ := section_solid m t a ks section_
  rw [← solid_shown m t a ks sound solid] at found
  obtain ⟨content, middle, read, same⟩ := block_written table o outer isBlock path output m t a ks sectionRule _
    block found rfl rfl written s u worked
  obtain ⟨parts, whole, each⟩ := parts_written table o (IsRow Hushed) (RowsWritten table o)
    (row_written table o tabling) _ _ _ _ [] ks rows (kids_sound m t a ks sound) [] content _ _ rfl read
  obtain ⟨lines, written, started⟩ := rows_in_parts table o _ _ each
  rw [← rows_of_section m t a ks path section_ rows] at written
  rw [same, whole, started]
  exact ⟨starting_follows lines (row_lines_lines table o _ _ written), lines, written, rfl⟩

theorem part_written (outer : List Open) (isBlock : Bool) (path : List Step) (output : Chars) (m : Mark) (t : String)
    (a : Attrs) (ks : List Marked) (s u : State) (written : Chars) (part : IsPart Hushed (.element m t a ks))
    (sound : Sound (.element m t a ks))
    (worked : elementText table o outer isBlock path output m t a ks s = .ok written u) :
    Follows written ∧ RowsWritten table o ⟨.element m t a ks, path⟩ written := by
  rcases part with row | ⟨section_, rows⟩
  · exact row_written table o tabling outer isBlock path output m t a ks s u written row sound worked
  · exact section_written table o tabling outer isBlock path output m t a ks s u written section_ rows sound worked

theorem table_written (outer : List Open) (isBlock : Bool) (path : List Step) (output : Chars) (m : Mark) (t : String)
    (a : Attrs) (ks : List Marked) (s u : State) (written : Chars) (grid : IsGrid Hushed (.element m t a ks))
    (pipe : isPipeTable ⟨.element m t a ks, path⟩ = true) (sound : Sound (.element m t a ks))
    (worked : elementText table o outer isBlock path output m t a ks s = .ok written u) :
    ∃ lines, RowLines table o (rowsOf ⟨.element m t a ks, path⟩) lines ∧ written = Block.apart (starting lines) := by
  obtain rfl : t = "table" := beq_iff_eq.mp grid.named
  have found := table_found table tabling o m "table" a ks path pipe
  rw [← solid_shown m "table" a ks sound (element_solid m "table" a ks)] at found
  obtain ⟨content, middle, read, rfl⟩ := block_written table o outer isBlock path output m "table" a ks tableRule _
    (by decide) found rfl rfl written s u worked
  obtain ⟨parts, whole, each⟩ := parts_written table o (IsPart Hushed) (RowsWritten table o)
    (part_written table o tabling) _ _ _ _ [] ks grid.parts (kids_sound m "table" a ks sound) [] content _ _ rfl read
  obtain ⟨lines, written, started⟩ := rows_in_parts table o _ _ each
  refine ⟨lines, written, ?_⟩
  rw [whole, started, List.nil_append, halve_starting lines (row_lines_lines table o _ _ written)]

end

theorem unnumbered_finite (m : Mark) (a : Attrs) (ks : List Marked) (path : List Step)
    (unnumbered : ∀ below ∈ forest ks, below.isNamed "ol" = false) :
    ¬ ∃ site ∈ visits table o path (.element m "table" a ks), needsEndlessMarker site = true := by
  rintro ⟨site, member, endless⟩
  rw [visits] at member
  rcases List.mem_cons.mp member with rfl | below
  · cases endless
  · split at below
    · rcases visits_all_endless table o _ path [] ks ⟨site, below, endless⟩ with ⟨list, inside, long⟩ | long
      · have listed := List.mem_map_of_mem (f := Site.node) (visits_all_among table o _ path [] ks list inside)
        rw [Site.among_nodes] at listed
        have named := ((Bool.and_eq_true _ _).mp long).1
        cases list_tag : list.node with
        | element m' t' a' ks' =>
            rw [list_tag] at listed named
            exact Bool.false_ne_true ((unnumbered _ listed).symm.trans named)
        | text | comment | document =>
            rw [list_tag] at named
            cases named
      · cases long
    · cases below

end

theorem row_lines_longer (table : RuleTable) (o : Options) (rows : List Site) (lines : List Chars)
    (written : RowLines table o rows lines) : rows.length ≤ lines.length := by
  induction written with
  | nil => exact Nat.le_refl _
  | cons row line rest lines some here later ih =>
      simp only [List.length_cons, List.length_append]
      omega

theorem heading_lines (table : RuleTable) (o : Options) (rows : List Site) (lines : List Chars)
    (written : RowLines table o rows lines) :
    List.Forall₂ (RowLine table o) rows lines ↔ ∀ row ∈ rows, isHeadingRow row = false := by
  induction written with
  | nil => simp
  | cons row line rest lines some here later ih =>
      rw [List.forall_mem_cons]
      cases heading : isHeadingRow row with
      | false =>
          rw [if_neg Bool.false_ne_true, List.singleton_append, List.forall₂_cons, ih]
          exact ⟨fun each => ⟨rfl, each.2⟩, fun each => ⟨here, each.2⟩⟩
      | true =>
          refine ⟨fun each => absurd each.length_eq ?_, fun each => nomatch each.1⟩
          have longer := row_lines_longer table o rest lines later
          simp only [if_true, List.length_cons, List.length_append]
          omega

theorem pipe_tables_lined (plugins : List Plugin) (known : ∀ p ∈ plugins, p ∈ bundled)
    (tabling : ∃ p ∈ plugins, p.name = "gfm" ∨ p.name = "tables") :
    ∃ w, plugins.forM Plugin.apply {} = .ok () w ∧ ∀ (o : Options) (tree : Tree) (site : Site),
      site ∈ visited w.table o (Site.ofTree tree) → IsGrid White site.node → isPipeTable site = true →
      (∀ step ∈ site.path, Whitespace.isKept o.preformattedCode step.head.tag = false) →
      (∀ below ∈ site.node.descendants, below.isNamed "ol" = false) →
      ∃ first rest, rowsOf site = first :: rest ∧ ∀ outer isBlock output s, ∃ head lines u,
        node w.table o outer isBlock site.path output site.node s =
          .ok (join output (Block.apart ('\n' :: Text.unlines (head :: borderLine first :: lines)))) u ∧
        RowLine w.table o first head ∧ RowLines w.table o rest lines ∧
        (∀ line ∈ head :: borderLine first :: lines, '\n' ∉ line) ∧
        (List.Forall₂ (RowLine w.table o) rest lines ↔ ∀ row ∈ rest, isHeadingRow row = false) := by
  obtain ⟨w, applied, reliable⟩ := plugins_safe plugins known {} default_reliable
  refine ⟨w, applied, fun o tree site member grid pipe open_ unnumbered => ?_⟩
  have rules := plugins_tabling plugins known tabling w applied
  have laid := visited_laid w.table o tree site member
  have hushed := laid.hushed open_ grid
  obtain ⟨⟨first, begins⟩, heading⟩ : (∃ first, (rowsOf site).head? = some first) ∧
      ∀ first, (rowsOf site).head? = some first → isHeadingRow first = true := by
    rw [isPipeTable, Bool.and_eq_true, hasHeading, first_row site grid] at pipe
    cases begins : (rowsOf site).head? with
    | none => rw [begins] at pipe; cases pipe.2
    | some first =>
        rw [begins] at pipe
        exact ⟨⟨first, rfl⟩, fun other same => Option.some.inj same ▸ pipe.2⟩
  obtain ⟨rest, rows⟩ := List.head?_eq_some_iff.mp begins
  refine ⟨first, rest, rows, fun outer isBlock output s => ?_⟩
  obtain ⟨n, path⟩ := site
  cases n with
  | text | comment | document => cases grid.named
  | element m t a ks =>
      obtain rfl : t = "table" := beq_iff_eq.mp grid.named
      have finite := unnumbered_finite w.table o m a ks path unnumbered
      obtain ⟨text, u, worked, -⟩ := (node_decided w.table reliable.rules o outer isBlock path output _).succeeds finite s
      rw [node_element] at worked
      obtain ⟨written, v, inside, joined⟩ := (bind_ok_iff _ _ _ _ _).mp worked
      obtain ⟨lines, each, whole⟩ := table_written w.table o rules outer isBlock path output m "table" a ks s v written
        hushed pipe laid.sound inside
      rw [rows] at each
      have every := row_lines_lines w.table o _ _ each
      cases each with
      | cons _ line _ lines some here later =>
          rw [heading first begins, if_pos rfl] at whole every
          refine ⟨line, lines, u, ?_, here, later, fun line member => (every line member).free,
            heading_lines w.table o rest lines later⟩
          cases joined
          rw [node_element, bind_of_ok _ _ s _ _ inside, whole, List.cons_append, List.cons_append, List.nil_append,
            starting_unlines]
          rfl

/-- A head of one row, and a body of two rows with white space between them. -/
def spacedTable : Tree :=
  .element () "table" [] [.element () "thead" [] [.element () "tr" [] [.element () "th" [] [.text () ['a']]]],
    .text () ['\n'], .element () "tbody" [] [.element () "tr" [] [.element () "th" [] [.text () ['b']]],
      .text () [' '], .element () "tr" [] [.element () "td" [] [.text () ['c']], .element () "td" [] []]]]

theorem spaced_table_lined : (∀ p ∈ bundled, p ∈ bundled) ∧ (∃ p ∈ bundled, p.name = "gfm" ∨ p.name = "tables") ∧
    ∃ w, bundled.forM Plugin.apply {} = .ok () w ∧ ∃ site ∈ visited w.table {} (Site.ofTree spacedTable),
      IsGrid White site.node ∧ isPipeTable site = true ∧
      (∀ step ∈ site.path, Whitespace.isKept false step.head.tag = false) ∧
      (∀ below ∈ site.node.descendants, below.isNamed "ol" = false) ∧
      ∃ first rest, rowsOf site = first :: rest ∧ (∀ row ∈ rest, isHeadingRow row = false) ∧ ∀ s, ∃ head lines u,
        node w.table {} [] true site.path [] site.node s =
          .ok (join [] (Block.apart ('\n' :: Text.unlines (head :: borderLine first :: lines)))) u ∧
        RowLine w.table {} first head ∧ List.Forall₂ (RowLine w.table {}) rest lines := by
  have known : ∀ p ∈ bundled, p ∈ bundled := fun _ member => member
  have tabling : ∃ p ∈ bundled, p.name = "gfm" ∨ p.name = "tables" := ⟨_, List.mem_cons_self, .inl rfl⟩
  obtain ⟨w, applied, lined⟩ := pipe_tables_lined bundled known tabling
  let site : Site := ⟨prepare {} (unmark spacedTable), []⟩
  have member : site ∈ visited w.table {} (Site.ofTree spacedTable) := first_visited w.table {} _ _ _ _
  have grid : IsGrid White site.node := by decide +kernel
  have pipe : isPipeTable site = true := by decide +kernel
  have unnumbered : ∀ below ∈ site.node.descendants, below.isNamed "ol" = false := by decide +kernel
  have flows : ∀ step ∈ site.path, Whitespace.isKept false step.head.tag = false := by simp [site]
  obtain ⟨first, rest, rows, written⟩ := lined {} spacedTable site member grid pipe flows unnumbered
  have others : ∀ row ∈ (rowsOf site).tail, isHeadingRow row = false := by decide +kernel
  rw [rows] at others
  refine ⟨known, tabling, w, applied, site, member, grid, pipe, flows, unnumbered, first, rest, rows, others,
    fun s => ?_⟩
  obtain ⟨head, lines, u, whole, line, -, -, plain⟩ := written [] true [] s
  exact ⟨head, lines, u, whole, line, plain.mpr others⟩

def tallHead : Tree :=
  .element () "table" [] [.element () "thead" [] [.element () "tr" [] [.element () "th" [] [.text () ['a']]],
    .element () "tr" [] [.element () "th" [] [.text () ['b']]]]]

-- The second row of the head has a line of borders below it, too.
theorem tall_head_bordered : ¬ ∀ (plugins : List Plugin), (∀ p ∈ plugins, p ∈ bundled) →
    (∃ p ∈ plugins, p.name = "gfm" ∨ p.name = "tables") → ∀ w, plugins.forM Plugin.apply {} = .ok () w →
    ∀ (o : Options) (tree : Tree) (site : Site), site ∈ visited w.table o (Site.ofTree tree) →
      IsGrid White site.node → isPipeTable site = true →
      (∀ step ∈ site.path, Whitespace.isKept o.preformattedCode step.head.tag = false) →
      (∀ below ∈ site.node.descendants, below.isNamed "ol" = false) →
      ∃ first rest, rowsOf site = first :: rest ∧ ∀ s, ∃ head lines u,
        node w.table o [] true site.path [] site.node s =
          .ok (join [] (Block.apart ('\n' :: Text.unlines (head :: borderLine first :: lines)))) u ∧
        RowLine w.table o first head ∧ List.Forall₂ (RowLine w.table o) rest lines := by
  intro always
  let tables : List Plugin := (bundled.drop 1).take 1
  let site : Site := ⟨prepare {} (unmark tallHead), []⟩
  obtain ⟨w, applied, evaluated⟩ : ∃ w, tables.forM Plugin.apply {} = .ok () w ∧
      answer (node w.table {} [] true [] [] site.node) {} =
        .ok "\n\n| a |\n| --- |\n| b |\n| --- |\n\n".toList := ⟨_, rfl, rfl⟩
  obtain ⟨first, rest, rows, written⟩ := always tables (fun _ member => List.mem_of_mem_drop (List.mem_of_mem_take member))
    ⟨_, List.mem_cons_self, .inr rfl⟩ w applied {} tallHead site (first_visited w.table {} _ _ _ _) (by decide +kernel)
    (by decide +kernel) (by simp [site]) (by decide +kernel)
  obtain ⟨head, lines, u, worked, here, each⟩ := written {}
  obtain ⟨second, rfl⟩ : ∃ second, rest = [second] := by
    have count : (rowsOf site).length = 2 := by decide +kernel
    rw [rows] at count
    exact List.length_eq_one_iff.mp (Nat.succ.inj count)
  have celled : ∀ row ∈ [first, second], cellsOf row ≠ [] := by
    rw [← rows]
    have some : ∀ row ∈ rowsOf site, (cellsOf row).isEmpty = false := by decide +kernel
    exact fun row member => by simpa using some row member
  cases each with
  | cons next none =>
      rename_i line _
      obtain rfl := List.forall₂_nil_left_iff.mp none
      have every : ∀ l ∈ [head, borderLine first, line], Line l := List.forall_mem_cons.mpr
        ⟨row_line_line w.table {} first head (celled first (by simp)) here, List.forall_mem_cons.mpr
          ⟨border_line first (celled first (by simp)), List.forall_mem_singleton.mpr
            (row_line_line w.table {} second line (celled second (by simp)) next)⟩⟩
      rw [answer, worked] at evaluated
      have text : Text.unlines [head, borderLine first, line] = "| a |\n| --- |\n| b |\n| --- |".toList :=
        by
          have whole := (join_started _ _ every).symm.trans (Except.ok.inj evaluated)
          exact (List.append_left_inj ['\n', '\n']).mp (List.cons.inj (List.cons.inj whole).2).2
      have lines := Text.lines_unlines [head, borderLine first, line] (by simp) fun l member => (every l member).free
      rw [text] at lines
      have four : (Text.lines "| a |\n| --- |\n| b |\n| --- |".toList).length = 4 := by decide
      rw [lines] at four
      cases four

end Render

end Downmark
