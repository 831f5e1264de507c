import Downmark.Proofs.PairedText
import Downmark.Proofs.TableLines
/-!
The bars of a row. Each cell brings its own, and what is in the cells must not add to them. Main statement: this is so
exactly if no pipe in the content of a cell stands behind an odd number of backslashes, as each gets one more there; and
running text never comes to such a pipe.
-/

set_option autoImplicit false

namespace Downmark

open Escape Node

namespace Gfm

/-- What a row is made of: texts between its cells, and the cells, each with the Markdown of its children. -/
inductive Part where
  | own (text : Chars)
  | cell (first : Bool) (content : Chars)

namespace Part

def text : Part → Chars
  | own text => text
  | cell first content => barred first (cellText content)

/-- A part with nothing in its cell. -/
def emptied : Part → Part
  | own text => own text
  | cell first _ => cell first []

def content? : Part → Option Chars
  | own _ => none
  | cell _ content => some content

def isFirst : Part → Bool
  | own _ => false
  | cell first _ => first

end Part

def rowFrom (out : Chars) (parts : List Part) : Chars := parts.foldl (fun out part => join out part.text) out

/-- The line of a row: its parts, joined one by one. -/
def rowText (parts : List Part) : Chars := rowFrom [] parts

/-- The Markdown in the cells of a row. -/
def contents (parts : List Part) : List Chars := parts.filterMap Part.content?

/-- The open pipes of a row are the bars of its cells, one more than there are cells, and all pipes in the cells are
shielded. The text of a cell stands behind a space. -/
structure BarsKept (cells : Nat) (parts : List Part) : Prop where
  bars : pipes false [] (rowText parts) = cells + 1
  shielded : ∀ content ∈ contents parts, ∀ a b, cellText content = a ++ '|' :: b → Shielded a

-- Joining only adds or drops newlines, so the pipes are those of the parts one after the other.
theorem row_from_pipes (p : Bool) (out : Chars) (parts : List Part) :
    pipes p [] (rowFrom out parts) = pipes p [] (out ++ parts.flatMap Part.text) := by
  induction parts generalizing out with
  | nil => simp [rowFrom]
  | cons part rest ih =>
      obtain ⟨same, count⟩ := joined_same p out part.text
      have later := ih (join out part.text)
      rw [rowFrom, List.foldl_cons]
      rw [rowFrom] at later
      rw [later, pipes_append, count, List.nil_append, pipes_same p _ _ _ same, List.flatMap_cons, ← List.append_assoc,
        pipes_append p [] (out ++ part.text), List.nil_append]

theorem open_bar (x : Chars) : ¬ Shielded (x ++ ['|']) := by simp [shielded_last]

theorem open_space (x : Chars) : ¬ Shielded (x ++ [' ']) := by simp [shielded_last]

/-- What is before the text of a cell. -/
def lead (first : Bool) : Chars := if first then ['|', ' '] else [' ']

theorem open_lead (x : Chars) (first : Bool) : ¬ Shielded (x ++ lead first) := by
  cases first with
  | true => exact List.append_cons x '|' [' '] ▸ open_space (x ++ ['|'])
  | false => exact open_space x

theorem open_barred (x text : Chars) (first : Bool) : ¬ Shielded (x ++ barred first text) := by
  have whole : x ++ barred first text = x ++ lead first ++ text ++ [' '] ++ ['|'] := by
    simp [barred, lead]
  rw [whole]
  exact open_bar _

theorem barred_pipes (x text : Chars) (first : Bool) :
    pipes false x (barred first text) = pipes false x (lead first) + pipes false (x ++ lead first) text + 1 := by
  have last (z : Chars) : pipes false z [' ', '|'] = 1 := by
    rw [pipes, pipes, if_neg fun both => absurd both.1 (by decide), if_pos ⟨rfl, decide_eq_false (open_space z)⟩]
    rfl
  have whole : barred first text = lead first ++ text ++ [' ', '|'] := rfl
  rw [whole, pipes_append, pipes_append, last]

theorem barred_content (x content : Chars) (first : Bool) : pipes false x (barred first (cellText content)) =
    pipes false x (barred first (cellText [])) + pipes true [] content := by
  rw [barred_pipes, barred_pipes, cell_text_pipes _ content (open_lead x first), cell_text_pipes _ [] (open_lead x first),
    pipes]
  omega

-- A cell ends in a bar, so what comes after it is read in the same way whatever is in it.
theorem parts_pipes (x y : Chars) (same : Shielded x ↔ Shielded y) (parts : List Part) :
    pipes false x (parts.flatMap Part.text) =
      pipes false y ((parts.map Part.emptied).flatMap Part.text) + ((contents parts).map (pipes true [])).sum := by
  induction parts generalizing x y with
  | nil => rfl
  | cons part rest ih =>
      rw [List.map_cons, List.flatMap_cons, List.flatMap_cons, pipes_append, pipes_append]
      cases part with
      | own text =>
          have later := ih (x ++ text) (y ++ text) (shielded_append x y text same)
          change pipes false x text + pipes false (x ++ text) _ = pipes false y text + pipes false (y ++ text) _ + _
          rw [later, pipes_same false x y text same, Nat.add_assoc]
          rfl
      | cell first content =>
          have later := ih (x ++ barred first (cellText content)) (y ++ barred first (cellText []))
            (iff_of_false (open_barred _ _ _) (open_barred _ _ _))
          have here := barred_content x content first
          have same := pipes_same false x y (barred first (cellText [])) same
          have sum : ((contents (.cell first content :: rest)).map (pipes true [])).sum =
              pipes true [] content + ((contents rest).map (pipes true [])).sum := rfl
          change pipes false x (barred first (cellText content)) + pipes false (x ++ barred first (cellText content)) _ =
            pipes false y (barred first (cellText [])) + pipes false (y ++ barred first (cellText [])) _ + _
          rw [later, sum]
          omega

theorem row_pipes (parts : List Part) : pipes false [] (rowText parts) =
    pipes false [] (rowText (parts.map Part.emptied)) + ((contents parts).map (pipes true [])).sum := by
  rw [rowText, rowText, row_from_pipes, row_from_pipes, List.nil_append, List.nil_append]
  exact parts_pipes [] [] Iff.rfl parts

theorem shielded_pipes (content : Chars) : (∀ a b, cellText content = a ++ '|' :: b → Shielded a) ↔
    ∀ a b, content = a ++ '|' :: b → ¬ Shielded a := by
  have written := no_pipes_iff false [] (cellText content)
  have given := no_pipes_iff true [] content
  rw [cell_text_pipes [] content shielded_nil] at written
  simp only [List.nil_append, ne_eq, decide_eq_false_iff_not, not_not] at written
  simp only [List.nil_append, ne_eq, decide_eq_true_eq] at given
  rw [← written, given]

theorem bars_kept_iff (cells : Nat) (parts : List Part) : BarsKept cells parts ↔
    (∀ content ∈ contents parts, ∀ a b, content = a ++ '|' :: b → ¬ Shielded a) ∧
      pipes false [] (rowText (parts.map Part.emptied)) = cells + 1 := by
  have none : ((contents parts).map (pipes true [])).sum = 0 ↔
      ∀ content ∈ contents parts, ∀ a b, content = a ++ '|' :: b → ¬ Shielded a := by
    simp [List.sum_eq_zero_iff_forall_eq_nat, no_pipes_iff]
  have count := row_pipes parts
  constructor
  · rintro ⟨bars, shielded⟩
    have each := fun content member => (shielded_pipes content).mp (shielded content member)
    have gone := none.mpr each
    exact ⟨each, by omega⟩
  · rintro ⟨each, bars⟩
    have gone := none.mpr each
    exact ⟨by omega, fun content member => (shielded_pipes content).mpr (each content member)⟩

-- Two bars for the first cell and one for each other, as long as there is nothing between them that counts.
theorem emptied_pipes (x : Chars) (parts : List Part) (own : ∀ text, .own text ∈ parts → Paired text ∧ '|' ∉ text)
    (start : ¬ Shielded x) : pipes false x ((parts.map Part.emptied).flatMap Part.text) =
      (contents parts).length + parts.countP Part.isFirst := by
  induction parts generalizing x with
  | nil => rfl
  | cons part rest ih =>
      have others := fun text member => own text (List.mem_cons_of_mem part member)
      rw [List.map_cons, List.flatMap_cons, pipes_append, List.countP_cons]
      cases part with
      | own text =>
          obtain ⟨paired, free⟩ := own text List.mem_cons_self
          have later := ih (x ++ text) others (paired_open x text paired start).1
          change pipes false x text + pipes false (x ++ text) _ = (contents rest).length + (_ + 0)
          rw [later, pipes_free false x text free, Nat.zero_add, Nat.add_zero]
      | cell first content =>
          have later := ih (x ++ barred first (cellText [])) others (open_barred _ _ _)
          have inside : pipes false (x ++ lead first) (cellText []) = 0 :=
            cell_text_pipes _ [] (open_lead x first)
          have opening : pipes false x (lead first) = if first = true then 1 else 0 := by
            cases first with
            | true =>
                change (if _ then 1 else 0) + ((if _ then 1 else 0) + 0) = _
                rw [if_pos ⟨rfl, decide_eq_false start⟩, if_neg fun both => absurd both.1 (by decide)]
                rfl
            | false =>
                change (if _ then 1 else 0) + 0 = _
                rw [if_neg fun both => absurd both.1 (by decide)]
                rfl
          have longer : (contents (.cell first content :: rest)).length = (contents rest).length + 1 := rfl
          change pipes false x (barred first (cellText [])) + pipes false (x ++ barred first (cellText [])) _ =
            _ + (_ + if first = true then 1 else 0)
          rw [later, barred_pipes, inside, opening, longer]
          omega

end Gfm

namespace Render

open Gfm

section

variable (table : RuleTable) (o : Options)

/-- How a child of a row is written, as deep in code and preformatted text as the row is. -/
inductive PartOf (counters : Counters) : Site → Part → Prop where
  | own (m : Mark) (data : Chars) (path : List Step) (opened : List Open) (s : State) (inside : s.counters = counters) :
      PartOf counters ⟨.text m data, path⟩ (.own (textOutput s o opened m data))
  | cell (m : Mark) (t : String) (a : Attrs) (ks : List Marked) (path : List Step) (outer : List Open) (s u : State)
      (content : Chars) (inside : s.counters = counters)
      (worked : nodes table o outer true (.element m t a) path [] [] ks s = .ok content u) :
      PartOf counters ⟨.element m t a ks, path⟩ (.cell (isFirstCell ⟨.element m t a ks, path⟩) content)

/-- The children of a row but for its comments. -/
def partSites (head : Head) (path : List Step) (before ks : List Marked) : List Site :=
  (Site.kidsAmong head path before ks).filter fun site => !site.node.isComment

/-- Whether a cell has nothing but running text in it, standing in a state. -/
def RunningCell (s : State) (cell : Site) : Prop :=
  BareAll o s.codeDepth s.preformattedDepth cell.node.kids ∧
    ∀ below ∈ (visits table o cell.path cell.node).tail, IsRunning table o below

/-- A text between cells that has no pipe in it, and no backslash if it stands in code. -/
def Harmless (s : State) (m : Mark) (data : Chars) : Prop :=
  (0 < s.codeDepth → '\\' ∉ m.shown.getD data) ∧ '|' ∉ m.shown.getD data

variable (counters : Counters) (m : Mark) (t : String) (a : Attrs) (path : List Step)

theorem parts_count (before ks : List Marked) (fit : ∀ k ∈ ks, k.Fits (isCell · = true) fun _ _ => True)
    (sound : ∀ k ∈ ks, Sound k) (parts : List Part)
    (each : List.Forall₂ (PartOf table o counters) (partSites (.element m t a) path before ks) parts) :
    (contents parts).length = (ks.filter isCell).length ∧
      parts.countP Part.isFirst = (!before.any isCell && ks.any isCell).toNat := by
  induction ks generalizing before parts with
  | nil =>
      cases each
      exact ⟨rfl, by rw [List.any_nil, Bool.and_false]; rfl⟩
  | cons n rest ih =>
      rw [List.forall_mem_cons] at fit sound
      cases n with
      | comment m' data => exact ih (.comment m' data :: before) fit.2 sound.2 parts each
      | document m kids => exact fit.1.elim
      | text m' data =>
          obtain ⟨part, others, here, later, rfl⟩ := List.forall₂_cons_left_iff.mp each
          cases here
          exact ih (.text m' data :: before) fit.2 sound.2 others later
      | element m' t' a' kids =>
          have cell : isCell (.element m' t' a' kids) = true := fit.1
          obtain ⟨part, others, here, later, rfl⟩ := List.forall₂_cons_left_iff.mp each
          obtain ⟨size, firsts⟩ := ih (.element m' t' a' kids :: before) fit.2 sound.2 others later
          rw [List.any_cons, cell, Bool.true_or, Bool.not_true, Bool.false_and] at firsts
          cases here
          refine ⟨?_, ?_⟩
          · rw [List.filter_cons_of_pos cell, List.length_cons, ← size]
            rfl
          · rw [List.countP_cons, firsts, List.any_cons, cell, Bool.true_or, Bool.and_true, Part.isFirst,
              first_cell m t a path before rest _ (sound.1.adopted _ List.mem_cons_self)]
            cases before.any isCell <;> rfl

section

variable (tabling : Tabling table.plugins)

include tabling

theorem cell_read (outer : List Open) (isBlock : Bool) (path : List Step) (output : Chars) (m : Mark) (t : String)
    (a : Attrs) (ks : List Marked) (s u : State) (written : Chars) (cell : isCell (.element m t a ks) = true)
    (sound : Sound (.element m t a ks))
    (worked : elementText table o outer isBlock path output m t a ks s = .ok written u) :
    ∃ part, PartOf table o s.counters ⟨.element m t a ks, path⟩ part ∧ written = part.text := by
  obtain ⟨content, middle, read, rfl⟩ :=
    cell_content table o tabling outer isBlock path output m t a ks s u written cell sound worked
  exact ⟨_, .cell m t a ks path _ s middle content rfl read, rfl⟩

theorem parts_read (keeps : ∀ rule ∈ table.inOrder, KeepsCounters rule.replacement) (outer : List Open) (isBlock : Bool)
    (head : Head) (path : List Step) (before ks : List Marked)
    (fit : ∀ k ∈ ks, k.Fits (isCell · = true) fun _ _ => True) (sound : ∀ k ∈ ks, Sound k) (output content : Chars)
    (s u : State) (inside : s.counters = counters)
    (worked : nodes table o outer isBlock head path before output ks s = .ok content u) :
    ∃ parts, List.Forall₂ (PartOf table o counters) (partSites head path before ks) parts ∧
      content = rowFrom output parts := by
  induction ks generalizing before output s with
  | nil =>
      cases worked
      exact ⟨[], .nil, rfl⟩
  | cons n rest ih =>
      rw [List.forall_mem_cons] at fit sound
      rw [nodes] at worked
      obtain ⟨next, v, first, later⟩ := (bind_ok_iff _ _ _ _ _).mp worked
      have kept : v.counters = counters := (node_keeps table keeps o outer isBlock _ output n s next v first).trans inside
      obtain ⟨parts, each, whole⟩ := ih (n :: before) fit.2 sound.2 next v kept later
      cases n with
      | comment m data =>
          cases first
          exact ⟨parts, each, whole⟩
      | document m kids => exact fit.1.elim
      | text m data =>
          cases first
          exact ⟨_, .cons (.own m data _ _ s inside) each, whole⟩
      | element m t a kids =>
          rw [node_element] at first
          obtain ⟨written, middle, here, joined⟩ := (bind_ok_iff _ _ _ _ _).mp first
          cases joined
          obtain ⟨part, cell, rfl⟩ := cell_read table o tabling outer isBlock _ output m t a kids s v written fit.1 sound.1 here
          rw [inside] at cell
          exact ⟨part :: parts, .cons cell each, whole⟩

theorem row_read (keeps : ∀ rule ∈ table.inOrder, KeepsCounters rule.replacement) (outer : List Open) (isBlock : Bool)
    (path : List Step) (output : Chars) (m : Mark) (t : String) (a : Attrs) (ks : List Marked) (s u : State)
    (written : Chars) (row : IsRow (fun _ _ => True) (.element m t a ks)) (sound : Sound (.element m t a ks))
    (worked : elementText table o outer isBlock path output m t a ks s = .ok written u) :
    ∃ parts, List.Forall₂ (PartOf table o s.counters) (partSites (.element m t a) path [] ks) parts ∧
      written = '\n' :: rowText parts ++ if isHeadingRow ⟨.element m t a ks, path⟩ then
        '\n' :: borders true (cells (.element m t a ks)) else [] := by
  obtain ⟨content, middle, read, rfl⟩ :=
    row_content table o tabling outer isBlock path output m t a ks s u written _ row sound worked
  obtain ⟨parts, each, rfl⟩ := parts_read table o s.counters tabling keeps _ _ (.element m t a) path [] ks row.cells
    (kids_sound m t a ks sound) [] content s middle rfl read
  exact ⟨parts, each, rfl⟩

-- Its content is paired, and so none of its pipes gets the backslash that would make it a bar.
theorem running_cell (keeps : ∀ rule ∈ table.inOrder, KeepsCounters rule.replacement) (s : State) (site : Site)
    (first : Bool) (content : Chars) (part : PartOf table o s.counters site (.cell first content))
    (cell : isCell site.node = true) (sound : Sound site.node) (running : RunningCell table o s site) :
    ∀ a b, content = a ++ '|' :: b → ¬ Shielded a := by
  obtain ⟨bare, running⟩ := running
  cases part with
  | cell m t a ks path outer s' u content inside worked =>
      have found := cell_found table tabling o m t a ks path cell
      rw [← solid_shown m t a ks sound (cell_solid _ cell)] at found
      rw [visits, asks_found table o m t a ks path cellRule found] at running
      have code : s'.codeDepth = s.codeDepth := congrArg Counters.code inside
      have kept : s'.preformattedDepth = s.preformattedDepth := congrArg Counters.preformatted inside
      have paired := nodes_paired table keeps o outer true (.element m t a) path [] [] ks s' u content
        (by rw [code, kept]; exact bare) running .nil worked
      have none := (paired_open [] content paired shielded_nil).2
      simpa using (no_pipes_iff true [] content).mp none

theorem parts_cells (keeps : ∀ rule ∈ table.inOrder, KeepsCounters rule.replacement) (s : State) (sites : List Site)
    (parts : List Part) (each : List.Forall₂ (PartOf table o s.counters) sites parts)
    (cells : ∀ site ∈ sites, site.node.isElement = true →
      isCell site.node = true ∧ Sound site.node ∧ RunningCell table o s site) :
    ∀ content ∈ contents parts, ∀ a b, content = a ++ '|' :: b → ¬ Shielded a := by
  induction each with
  | nil => exact fun _ member => nomatch member
  | cons here _ ih =>
      rw [List.forall_mem_cons] at cells
      have others := ih cells.2
      cases here with
      | own => exact others
      | cell m t a ks path outer s' u content inside worked =>
          obtain ⟨cell, sound, running⟩ := cells.1 rfl
          exact List.forall_mem_cons.mpr ⟨running_cell table o tabling keeps s _ _ content
            (.cell m t a ks path outer s' u content inside worked) cell sound running, others⟩

end

theorem own_texts (s : State) (sites : List Site) (parts : List Part)
    (each : List.Forall₂ (PartOf table o s.counters) sites parts)
    (plain : ∀ site ∈ sites, ∀ m data, site.node = .text m data → Harmless s m data) :
    ∀ text, .own text ∈ parts → Paired text ∧ '|' ∉ text := by
  induction each with
  | nil => exact fun _ member => nomatch member
  | cons here _ ih =>
      rw [List.forall_mem_cons] at plain
      have others := ih plain.2
      intro text member
      rcases List.mem_cons.mp member with same | later
      · cases here with
        | own m data path opened s' inside =>
            obtain rfl := Part.own.inj same
            obtain ⟨coded, free⟩ := plain.1 m data rfl
            have code : s'.codeDepth = s.codeDepth := congrArg Counters.code inside
            exact ⟨text_paired o s' opened m data (by rwa [code]) fun _ _ => free, text_barless o s' opened m data free⟩
        | cell => cases same
      · exact others text later

end

theorem row_bars_kept_iff (plugins : List Plugin) (known : ∀ p ∈ plugins, p ∈ bundled)
    (tabling : ∃ p ∈ plugins, p.name = "gfm" ∨ p.name = "tables") :
    ∃ w, plugins.forM Plugin.apply {} = .ok () w ∧ ∀ (o : Options) (tree : Tree) (row : Site),
      row ∈ visited w.table o (Site.ofTree tree) → IsRow (fun _ _ => True) row.node →
      (∀ below ∈ visits w.table o row.path row.node, needsEndlessMarker below = false) →
      ∀ outer isBlock output s, ∃ parts u,
        List.Forall₂ (PartOf w.table o s.counters) (row.kids.filter fun site => !site.node.isComment) parts ∧
        node w.table o outer isBlock row.path output row.node s =
          .ok (join output ('\n' :: rowText parts ++
            if isHeadingRow row then '\n' :: borders true (cells row.node) else [])) u ∧
        (BarsKept (cells row.node).length parts ↔
          (∀ content ∈ contents parts, ∀ a b, content = a ++ '|' :: b → ¬ Shielded a) ∧
            pipes false [] (rowText (parts.map Part.emptied)) = (cells row.node).length + 1) ∧
        ((∀ m data, .text m data ∈ row.node.kids → Harmless s m data) →
          pipes false [] (rowText (parts.map Part.emptied)) = (cells row.node).length + 1) ∧
        ((∀ cell ∈ cellsOf row, RunningCell w.table o s cell) →
          ∀ content ∈ contents parts, ∀ a b, content = a ++ '|' :: b → ¬ Shielded a) := by
  obtain ⟨w, applied, reliable⟩ := plugins_safe plugins known {} default_reliable
  refine ⟨w, applied, fun o tree row member cells finite outer isBlock output s => ?_⟩
  have rules := plugins_tabling plugins known tabling w applied
  have keeps : ∀ rule ∈ w.table.inOrder, KeepsCounters rule.replacement := fun rule listed =>
    (reliable.rules rule listed).keeps
  have sound := (visited_laid w.table o tree row member).sound
  obtain ⟨n, path⟩ := row
  cases n with
  | text | comment | document => cases cells.named
  | element m t a ks =>
      have each_sound := kids_sound m t a ks sound
      obtain ⟨text, u, worked, -⟩ := (node_decided w.table reliable.rules o outer isBlock path output _).succeeds
        (fun ⟨below, inside, endless⟩ => Bool.false_ne_true ((finite below inside).symm.trans endless)) s
      rw [node_element] at worked
      obtain ⟨written, v, inside, joined⟩ := (bind_ok_iff _ _ _ _ _).mp worked
      cases joined
      obtain ⟨parts, each, rfl⟩ :=
        row_read w.table o rules keeps outer isBlock path output m t a ks s u written cells sound inside
      have kids (site : Site) (listed : site ∈ partSites (.element m t a) path [] ks) :
          site ∈ Site.kidsAmong (.element m t a) path [] ks ∧ site.node ∈ ks := by
        have among := (List.mem_filter.mp listed).1
        exact ⟨among, Site.kids_nodes (.element m t a) path [] ks ▸ List.mem_map_of_mem among⟩
      refine ⟨parts, u, each, ?_, bars_kept_iff _ parts, fun harmless => ?_, fun running => ?_⟩
      · rw [node_element, bind_of_ok _ _ s _ _ inside]
        rfl
      · have own := own_texts w.table o s _ parts each fun site listed m data text =>
          harmless m data (text ▸ (kids site listed).2)
        obtain ⟨size, first⟩ := parts_count w.table o s.counters m t a path [] ks cells.cells each_sound parts each
        rw [rowText, row_from_pipes, List.nil_append, emptied_pipes [] parts own shielded_nil, size, first,
          show ks.any isCell = true from cells.some]
        rfl
      · refine parts_cells w.table o rules keeps s _ parts each fun site listed element => ?_
        obtain ⟨among, inside⟩ := kids site listed
        have cell : isCell site.node = true := by
          have fit := cells.cells site.node inside
          cases shape : site.node with
          | element m' t' a' ks' => rwa [shape] at fit
          | text | comment | document => rw [shape] at element; cases element
        exact ⟨cell, each_sound _ inside, running site (List.mem_filter.mpr ⟨among, cell⟩)⟩

/-- Two cells with pipes in them, one of them behind a backslash. -/
def pipedRow : Tree :=
  .element () "tr" [] [.element () "th" [] [.text () ['a', '|', 'b']], .element () "td" [] [
    .element () "em" [] [.text () ['c', '\\', '|', 'd']], .text () ['|']]]

theorem piped_row_kept :
    let tables : List Plugin := (bundled.drop 1).take 1
    (∀ p ∈ tables, p ∈ bundled) ∧ (∃ p ∈ tables, p.name = "gfm" ∨ p.name = "tables") ∧
    ∃ w, tables.forM Plugin.apply {} = .ok () w ∧ ∃ row ∈ visited w.table {} (Site.ofTree pipedRow),
      IsRow (fun _ _ => True) row.node ∧
      (∀ below ∈ visits w.table {} row.path row.node, needsEndlessMarker below = false) ∧
      (∀ m data, .text m data ∈ row.node.kids → Harmless {} m data) ∧
      (∀ cell ∈ cellsOf row, RunningCell w.table {} {} cell) ∧ ∃ parts u,
        node w.table {} [] true row.path [] row.node {} =
          .ok (join [] ('\n' :: rowText parts ++
            if isHeadingRow row then '\n' :: borders true (cells row.node) else [])) u ∧
        BarsKept 2 parts := by
  intro tables
  have known : ∀ p ∈ tables, p ∈ bundled := fun _ member => List.mem_of_mem_drop (List.mem_of_mem_take member)
  have tabling : ∃ p ∈ tables, p.name = "gfm" ∨ p.name = "tables" := ⟨_, List.mem_cons_self, .inr rfl⟩
  obtain ⟨w, applied, kept⟩ := row_bars_kept_iff tables known tabling
  let row : Site := ⟨prepare {} (unmark pipedRow), []⟩
  have member : row ∈ visited w.table {} (Site.ofTree pipedRow) := first_visited w.table {} _ _ _ _
  have named : IsRow (fun _ _ => True) row.node := by decide +kernel
  have elements : ∀ k ∈ row.node.kids, k.isElement = true := by decide +kernel
  have harmless : ∀ m data, .text m data ∈ row.node.kids → Harmless {} m data := fun m data listed =>
    absurd (elements _ listed) Bool.false_ne_true
  obtain ⟨w', same, finite, running⟩ : ∃ w', tables.forM Plugin.apply {} = .ok () w' ∧
      (∀ below ∈ visits w'.table {} row.path row.node, needsEndlessMarker below = false) ∧
      ∀ cell ∈ cellsOf row, RunningCell w'.table {} {} cell := by
    refine ⟨_, rfl, by decide +kernel, List.forall_mem_cons.mpr ⟨⟨?_, ?_⟩, List.forall_mem_singleton.mpr ⟨?_, ?_⟩⟩⟩
    · change BareAll _ 0 0 [.text _ _]
      simp [BareAll, Bare]
    · change ∀ below ∈ [], _
      simp
    · change BareAll _ 0 0 [.element _ _ _ [.text _ _], .text _ _]
      simp [BareAll, Bare]
    · exact List.forall_mem_singleton.mpr ⟨emphasisRule, by simp [textRules], rfl⟩
  obtain ⟨-, rfl⟩ := EStateM.Result.ok.inj (applied.symm.trans same)
  obtain ⟨parts, u, -, worked, claim, bars, shielded⟩ := kept {} pipedRow row member named finite [] true [] {}
  have two : (cells row.node).length = 2 := by decide +kernel
  rw [two] at claim bars
  exact ⟨known, tabling, w, applied, row, member, named, finite, harmless, running, parts, u, worked,
    claim.mpr ⟨shielded running, bars harmless⟩⟩

def preformattedCell : Tree :=
  .element () "tr" [] [.element () "th" [] [.element () "pre" [] [.text () ['a', '|', 'b']]]]

-- The pipe has a backslash already, and the second one makes a bar of it.
theorem preformatted_pipe_open : ¬ ∀ (plugins : List Plugin), (∀ p ∈ plugins, p ∈ bundled) →
    (∃ p ∈ plugins, p.name = "gfm" ∨ p.name = "tables") → ∀ w, plugins.forM Plugin.apply {} = .ok () w →
    ∀ (o : Options) (tree : Tree) (row : Site), row ∈ visited w.table o (Site.ofTree tree) →
      IsRow (fun _ _ => True) row.node →
      (∀ below ∈ visits w.table o row.path row.node, needsEndlessMarker below = false) →
      ∀ outer isBlock output s, ∃ parts u,
        List.Forall₂ (PartOf w.table o s.counters) (row.kids.filter fun site => !site.node.isComment) parts ∧
        node w.table o outer isBlock row.path output row.node s =
          .ok (join output ('\n' :: rowText parts ++
            if isHeadingRow row then '\n' :: borders true (cells row.node) else [])) u ∧
        BarsKept (cells row.node).length parts := by
  intro always
  let tables : List Plugin := (bundled.drop 1).take 1
  let o : Options := { preformattedCode := true }
  let row : Site := ⟨prepare o (unmark preformattedCell), []⟩
  obtain ⟨w, applied, finite, evaluated⟩ : ∃ w, tables.forM Plugin.apply {} = .ok () w ∧
      (∀ below ∈ visits w.table o row.path row.node, needsEndlessMarker below = false) ∧
      (answer (node w.table o [] true [] [] row.node) {}).toOption.map (pipes false []) = some 3 :=
    ⟨_, rfl, by decide +kernel, by decide +kernel⟩
  obtain ⟨parts, u, -, worked, kept⟩ := always tables (fun _ member => List.mem_of_mem_drop (List.mem_of_mem_take member))
    ⟨_, List.mem_cons_self, .inr rfl⟩ w applied o preformattedCell row (first_visited w.table o _ _ _ _)
    (by decide +kernel) finite [] true [] {}
  rw [answer, worked] at evaluated
  have counted := Option.some.inj evaluated
  rw [(joined_same false [] _).2] at counted
  change pipes false [] ('\n' :: (rowText parts ++ [])) = _ at counted
  have apart : Shielded ([] ++ ['\n']) ↔ Shielded [] := by simp [Shielded, Text.ending]
  rw [List.append_nil, pipes, pipes_same false _ [] _ apart, kept.bars] at counted
  exact absurd counted (by decide +kernel)

end Render

end Downmark
