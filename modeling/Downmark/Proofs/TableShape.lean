import Downmark.Gfm.Table
import Downmark.Proofs.PreparedBlocks
import Downmark.Proofs.PreparedShape
/-!
Tables that are laid out as rows of cells, in sections or not, with nothing but white space and comments between
them. Main statement: preparing a tree leaves nothing of the white space in such a table, unless an element around
the table keeps its text as it is.
-/

set_option autoImplicit false

namespace Downmark

namespace Node

variable {μ ν : Type}

/-- Whether a child is a text of a kind, a comment, or an element of a kind. -/
def Fits (part : Node μ → Prop) (text : μ → Chars → Prop) : Node μ → Prop
  | .text m data => text m data
  | .comment _ _ => True
  | .element m t a ks => part (.element m t a ks)
  | .document _ _ => False

instance (part : Node μ → Prop) (text : μ → Chars → Prop) [DecidablePred part] [∀ m data, Decidable (text m data)]
    (n : Node μ) : Decidable (n.Fits part text) :=
  match n with
  | .text m data => inferInstanceAs (Decidable (text m data))
  | .comment _ _ => isTrue trivial
  | .element m t a ks => inferInstanceAs (Decidable (part (.element m t a ks)))
  | .document _ _ => isFalse fun other => other

theorem fits_marks (f : μ → ν) (part : Node ν → Prop) (text : ν → Chars → Prop) (n : Node μ) :
    (n.mapMarks f).Fits part text ↔ n.Fits (fun n => part (n.mapMarks f)) fun m => text (f m) := by
  cases n <;> rfl

theorem all_fit_marks (f : μ → ν) (part : Node ν → Prop) (text : ν → Chars → Prop) (n : Node μ) :
    (∀ k ∈ (n.mapMarks f).kids, k.Fits part text) ↔
      ∀ k ∈ n.kids, k.Fits (fun n => part (n.mapMarks f)) fun m => text (f m) := by
  have kids : (n.mapMarks f).kids = n.kids.map (mapMarks f) := by
    cases n <;> simp [mapMarks, Node.kids, map_all_marks_map]
  simp only [kids, List.forall_mem_map, fits_marks]

end Node

namespace Gfm

open Node

section

variable {μ ν : Type}

def isSection (n : Node μ) : Bool := n.isNamed "thead" || n.isNamed "tbody" || n.isNamed "tfoot"

/-- A row of cells, at least one, with texts of a kind between them. -/
structure IsRow (text : μ → Chars → Prop) (n : Node μ) : Prop where
  named : n.isNamed "tr" = true
  some : n.kids.any isCell = true
  cells : ∀ k ∈ n.kids, k.Fits (isCell · = true) text

/-- A row of a table, or a section of rows. -/
inductive IsPart (text : μ → Chars → Prop) (n : Node μ) : Prop where
  | row (row : IsRow text n)
  | rows (named : isSection n = true) (rows : ∀ k ∈ n.kids, k.Fits (IsRow text) text)

/-- A table of rows and sections of rows. -/
structure IsGrid (text : μ → Chars → Prop) (n : Node μ) : Prop where
  named : n.isNamed "table" = true
  parts : ∀ k ∈ n.kids, k.Fits (IsPart text) text

instance (text : μ → Chars → Prop) [∀ m data, Decidable (text m data)] (n : Node μ) : Decidable (IsRow text n) :=
  decidable_of_iff (n.isNamed "tr" = true ∧ n.kids.any isCell = true ∧ ∀ k ∈ n.kids, k.Fits (isCell · = true) text)
    ⟨fun row => ⟨row.1, row.2.1, row.2.2⟩, fun row => ⟨row.named, row.some, row.cells⟩⟩

instance (text : μ → Chars → Prop) [∀ m data, Decidable (text m data)] (n : Node μ) : Decidable (IsPart text n) :=
  decidable_of_iff (IsRow text n ∨ isSection n = true ∧ ∀ k ∈ n.kids, k.Fits (IsRow text) text)
    ⟨fun part => part.elim .row fun rows => .rows rows.1 rows.2, fun part => match part with
      | .row row => .inl row
      | .rows named rows => .inr ⟨named, rows⟩⟩

instance (text : μ → Chars → Prop) [∀ m data, Decidable (text m data)] (n : Node μ) : Decidable (IsGrid text n) :=
  decidable_of_iff (n.isNamed "table" = true ∧ ∀ k ∈ n.kids, k.Fits (IsPart text) text)
    ⟨fun grid => ⟨grid.1, grid.2⟩, fun grid => ⟨grid.named, grid.parts⟩⟩

theorem cell_marks (f : μ → ν) (n : Node μ) : isCell (n.mapMarks f) = isCell n := by
  simp only [isCell, map_marks_named]

theorem row_marks (f : μ → ν) (text : ν → Chars → Prop) (n : Node μ) :
    IsRow text (n.mapMarks f) ↔ IsRow (fun m => text (f m)) n := by
  have kids : (n.mapMarks f).kids.any isCell = n.kids.any isCell := by
    cases n <;> simp [mapMarks, Node.kids, map_all_marks_map, List.any_map, Function.comp_def, cell_marks]
  have cells := all_fit_marks f (isCell · = true) text n
  simp only [cell_marks] at cells
  exact ⟨fun row => ⟨map_marks_named f _ n ▸ row.named, kids ▸ row.some, cells.mp row.cells⟩,
    fun row => ⟨(map_marks_named f _ n).trans row.named, kids.trans row.some, cells.mpr row.cells⟩⟩

theorem part_marks (f : μ → ν) (text : ν → Chars → Prop) (n : Node μ) :
    IsPart text (n.mapMarks f) ↔ IsPart (fun m => text (f m)) n := by
  have named : isSection (n.mapMarks f) = isSection n := by simp only [isSection, map_marks_named]
  have rows := all_fit_marks f (IsRow text) text n
  simp only [row_marks] at rows
  constructor
  · rintro (row | ⟨section_, below⟩)
    · exact .row ((row_marks f text n).mp row)
    · exact .rows (named ▸ section_) (rows.mp below)
  · rintro (row | ⟨section_, below⟩)
    · exact .row ((row_marks f text n).mpr row)
    · exact .rows (named.trans section_) (rows.mpr below)

theorem grid_marks (f : μ → ν) (text : ν → Chars → Prop) (n : Node μ) :
    IsGrid text (n.mapMarks f) ↔ IsGrid (fun m => text (f m)) n := by
  have parts := all_fit_marks f (IsPart text) text n
  simp only [part_marks] at parts
  exact ⟨fun grid => ⟨map_marks_named f _ n ▸ grid.named, parts.mp grid.parts⟩,
    fun grid => ⟨(map_marks_named f _ n).trans grid.named, parts.mpr grid.parts⟩⟩

end

/-- A text that a browser shows as nothing between two blocks. -/
def White {μ : Type} (_ : μ) (data : Chars) : Prop := data.all Whitespace.isCollapsible = true

instance {μ : Type} (m : μ) (data : Chars) : Decidable (White m data) :=
  inferInstanceAs (Decidable (data.all Whitespace.isCollapsible = true))

/-- A text of which nothing is shown. -/
def Hushed (m : Mark) (_ : Chars) : Prop := m.shown = some []

end Gfm

namespace Whitespace

open Gfm

/-- A child of a container of blocks, by itself. -/
def settleKid (keep : Bool) : Marked → Marked
  | .text m data => .text { m with shown := some [] } data
  | .comment m data => .comment m data
  | .document m ks => .document m ks
  | .element m t a ks => collapse keep (.element m t a ks)

/-- An element that stands on lines of its own and whose white space is collapsed. -/
def isPlainBlock (keep : Bool) (n : Marked) : Prop := n.isBlock = true ∧ isKept keep n.tag = false

theorem white_squeezed (data : Chars) (white : data.all isCollapsible = true) : dropSpace (squeeze data) = [] := by
  cases data with
  | nil => rfl
  | cons c rest =>
      rw [List.all_cons, Bool.and_eq_true] at white
      have gone : squeezeFrom true rest = [] := by
        induction rest with
        | nil => rfl
        | cons d rest ih =>
            rw [List.all_cons, Bool.and_eq_true] at white
            rw [squeezeFrom, if_pos white.2.1, if_pos rfl]
            exact ih ⟨white.1, white.2.2⟩
      rw [squeeze, squeezeFrom, if_pos white.1, if_neg Bool.false_ne_true, gone]
      rfl

theorem plain_events {keep : Bool} {m : Mark} {t : String} {a : Attrs} {ks : List Marked}
    (plain : isPlainBlock keep (.element m t a ks)) :
    events keep (.element m t a ks) = .border :: (eventsOf keep ks ++ [.border]) := by
  have block : isBlockTag t = true := plain.1
  have inner : isKept keep t = false := plain.2
  simp [events, eventOf, block, inner]

theorem plain_settled {keep : Bool} {m : Mark} {t : String} {a : Attrs} {ks : List Marked}
    (plain : isPlainBlock keep (.element m t a ks)) (flow : Flow) (after : List Event) :
    (backward (forward flow (events keep (.element m t a ks) ++ after))).2 =
      settle (eventsOf keep ks) ++ (backward (forward {} after)).2 := by
  rw [plain_events plain]
  simp only [List.cons_append, List.append_assoc, List.nil_append, forward, backward, forward_border, backward_border]
  rfl

/-- Texts of white space between blocks are shown as nothing, whatever comes after them. -/
theorem fill_blocks (keep : Bool) (ks : List Marked) (after : List Event)
    (blocks : ∀ k ∈ ks, k.Fits (isPlainBlock keep) White) :
    fillAll keep ks (backward (forward {} (eventsOf keep ks ++ after))).2 =
      (ks.map (settleKid keep), (backward (forward {} after)).2) := by
  induction ks with
  | nil => rfl
  | cons n rest ih =>
      rw [List.forall_mem_cons] at blocks
      have later := ih blocks.2
      cases n with
      | text m data =>
          have gone := white_squeezed data blocks.1
          have settled : (backward (forward {} (eventsOf keep (.text m data :: rest) ++ after))).2 =
              [] :: (backward (forward {} (eventsOf keep rest ++ after))).2 := by
            simp only [eventsOf, events, List.cons_append, List.nil_append, forward]
            rw [if_pos (show ({} : Flow).dropsSpace = true from rfl), gone]
            rfl
          rw [settled, fillAll, fill]
          simp only [later, List.map_cons, settleKid]
      | comment m data =>
          simp only [eventsOf, events, List.nil_append, fillAll, fill, later, List.map_cons, settleKid]
      | document m kids => exact blocks.1.elim
      | element m t a kids =>
          have plain : isPlainBlock keep (.element m t a kids) := blocks.1
          rw [eventsOf, List.append_assoc, plain_settled plain, fillAll, fill_element m t a kids keep plain.2]
          simp only [later, List.map_cons, settleKid]

theorem collapse_blocks_among (keep : Bool) (m : Mark) (t : String) (a : Attrs) (ks : List Marked)
    (open_ : isKept keep t = false) (blocks : ∀ k ∈ ks, k.Fits (isPlainBlock keep) White) :
    collapse keep (.element m t a ks) = .element m t a (ks.map (settleKid keep)) := by
  have filled := fill_blocks keep ks [] blocks
  rw [List.append_nil] at filled
  rw [collapse, if_neg (Bool.eq_false_iff.mp open_), settle, filled]

end Whitespace

namespace Gfm

open Whitespace

theorem named_block (keep : Bool) (name : String) (block : isBlockTag name = true) (open_ : isKept true name = false)
    (n : Marked) (named : n.isNamed name = true) : isPlainBlock keep n := by
  cases n with
  | element m t a ks =>
      obtain rfl : t = name := beq_iff_eq.mp named
      refine ⟨block, ?_⟩
      cases keep with
      | true => exact open_
      | false => rfl
  | text | comment | document => cases named

theorem part_block (keep : Bool) (n : Marked) (part : IsPart White n) : isPlainBlock keep n := by
  rcases part with row | ⟨section_, -⟩
  · exact named_block keep "tr" (by decide) (by decide) n row.named
  · simp only [isSection, Bool.or_eq_true] at section_
    rcases section_ with (named | named) | named
    · exact named_block keep "thead" (by decide) (by decide) n named
    · exact named_block keep "tbody" (by decide) (by decide) n named
    · exact named_block keep "tfoot" (by decide) (by decide) n named

theorem cell_block (keep : Bool) (n : Marked) (cell : isCell n = true) : isPlainBlock keep n := by
  rcases Bool.or_eq_true_iff.mp cell with named | named
  · exact named_block keep "th" (by decide) (by decide) n named
  · exact named_block keep "td" (by decide) (by decide) n named

/-- What is known of the parts of a container of blocks holds of what is left of them. -/
theorem settled_fit (keep : Bool) (part part' : Marked → Prop) (ks : List Marked)
    (blocks : ∀ n, part n → isPlainBlock keep n) (kept : ∀ n, part n → part' (collapse keep n))
    (fit : ∀ k ∈ ks, k.Fits part White) :
    (∀ k ∈ ks, k.Fits (isPlainBlock keep) White) ∧ ∀ k ∈ ks.map (settleKid keep), k.Fits part' Hushed := by
  rw [List.forall_mem_map]
  refine ⟨fun k member => ?_, fun k member => ?_⟩
  · have known := fit k member
    cases k with
    | element m t a kids => exact blocks _ known
    | text | comment | document => exact known
  · have known := fit k member
    cases k with
    | text m data => rfl
    | comment m data => trivial
    | document m kids => exact known
    | element m t a kids =>
        have still := kept _ known
        have shape : ∃ kids', collapse keep (.element m t a kids) = .element m t a kids' := by
          rw [collapse]
          split <;> exact ⟨_, rfl⟩
        obtain ⟨kids', shape⟩ := shape
        rw [settleKid]
        rw [shape] at still ⊢
        exact still

theorem collapse_cell (keep : Bool) (n : Marked) : isCell (collapse keep n) = isCell n := by
  have same := collapse_unnoted (fun _ => ()) (fun _ _ => rfl) keep n
  rw [← cell_marks (fun _ => ()) (collapse keep n), same, cell_marks]

/-- What collapsing makes of a container of blocks. -/
theorem collapse_container (keep : Bool) (part part' : Marked → Prop) (n : Marked)
    (plain : isPlainBlock keep n) (blocks : ∀ n, part n → isPlainBlock keep n)
    (kept : ∀ n, part n → part' (collapse keep n)) (fit : ∀ k ∈ n.kids, k.Fits part White) :
    (∀ name, (collapse keep n).isNamed name = n.isNamed name) ∧
      (collapse keep n).kids.any isCell = n.kids.any isCell ∧
      ∀ k ∈ (collapse keep n).kids, k.Fits part' Hushed := by
  cases n with
  | element m t a ks =>
      obtain ⟨plains, settled⟩ := settled_fit keep part part' ks blocks kept fit
      have cells (k : Marked) : isCell (settleKid keep k) = isCell k := by
        cases k with
        | element m t a ks => exact collapse_cell keep (.element m t a ks)
        | text | comment | document => rfl
      rw [collapse_blocks_among keep m t a ks plain.2 plains]
      refine ⟨fun _ => rfl, ?_, settled⟩
      simp only [Node.kids, List.any_map, Function.comp_def, cells]
  | text | comment | document =>
      have inline : isBlockTag "" = true := plain.1
      exact absurd inline (by decide)

theorem collapse_row (keep : Bool) (n : Marked) (row : IsRow White n) : IsRow Hushed (collapse keep n) := by
  obtain ⟨named, cells, fit⟩ := collapse_container keep (isCell · = true) (isCell · = true) n
    (part_block keep n (.row row)) (cell_block keep) (fun n cell => (collapse_cell keep n).trans cell) row.cells
  exact ⟨(named _).trans row.named, cells.trans row.some, fit⟩

theorem collapse_part (keep : Bool) (n : Marked) (part : IsPart White n) : IsPart Hushed (collapse keep n) := by
  have plain := part_block keep n part
  rcases part with row | ⟨section_, rows⟩
  · exact .row (collapse_row keep n row)
  · obtain ⟨named, -, fit⟩ := collapse_container keep (IsRow White) (IsRow Hushed) n plain
      (fun n row => part_block keep n (.row row)) (collapse_row keep) rows
    exact .rows (by simpa only [isSection, named] using section_) fit

theorem collapse_grid (keep : Bool) (n : Marked) (grid : IsGrid White n) : IsGrid Hushed (collapse keep n) := by
  have plain := named_block keep "table" (by decide) (by decide) n grid.named
  obtain ⟨named, -, fit⟩ := collapse_container keep (IsPart White) (IsPart Hushed) n plain (part_block keep)
    (collapse_part keep) grid.parts
  exact ⟨(named _).trans grid.named, fit⟩

end Gfm

namespace Whitespace

section

variable {μ ν : Type} (keep : Bool)

mutual

/-- The elements of a tree that are rendered and in which white space is collapsed. -/
def flowing : Node μ → List (Node μ)
  | .text _ _ => []
  | .comment _ _ => []
  | .document _ _ => []
  | .element m t a ks => .element m t a ks :: if isKept keep t then [] else flowingAll ks

def flowingAll : List (Node μ) → List (Node μ)
  | [] => []
  | n :: rest => flowing n ++ flowingAll rest

end

mutual

theorem flowing_marks (f : μ → ν) (n : Node μ) :
    flowing keep (n.mapMarks f) = (flowing keep n).map (Node.mapMarks f) := by
  cases n with
  | element m t a ks =>
      simp only [Node.mapMarks, flowing]
      split
      · rfl
      · rw [flowing_all_marks f ks]
        rfl
  | text | comment | document => rfl

theorem flowing_all_marks (f : μ → ν) (ks : List (Node μ)) :
    flowingAll keep (Node.mapAllMarks f ks) = (flowingAll keep ks).map (Node.mapMarks f) := by
  cases ks with
  | nil => rfl
  | cons n rest => rw [Node.mapAllMarks, flowingAll, flowing_marks f n, flowing_all_marks f rest, flowingAll,
      List.map_append]

end

end

/-- The texts of some events come first among all, whatever is known of the text before. -/
theorem settled_first (flow : Flow) (first : List Event) : ∃ flow', ∀ after, ∃ texts,
    texts.length = textCount first ∧
      (backward (forward flow (first ++ after))).2 = texts ++ (backward (forward flow' after)).2 := by
  induction first generalizing flow with
  | nil => exact ⟨flow, fun after => ⟨[], rfl, rfl⟩⟩
  | cons e rest ih =>
      cases e with
      | text raw =>
          simp only [List.cons_append, forward, backward]
          obtain ⟨flow', later⟩ := ih (flow.after (if flow.dropsSpace then dropSpace (squeeze raw) else squeeze raw))
          refine ⟨flow', fun after => ?_⟩
          obtain ⟨texts, count, settled⟩ := later after
          generalize (if flow.dropsSpace then dropSpace (squeeze raw) else squeeze raw) = s at settled ⊢
          rw [settled]
          split
          · exact ⟨s :: texts, by simp [textCount, count], rfl⟩
          · exact ⟨_ :: texts, by simp [textCount, count], rfl⟩
      | border | solid | tag => exact ih _

theorem silent_first (keep : Bool) (t : String) (flow : Flow) : ∃ flow', ∀ after,
    (backward (forward flow (eventOf keep t :: after))).2 = (backward (forward flow' after)).2 := by
  cases e : eventOf keep t with
  | text s => exact absurd e (event_silent keep t s)
  | border | solid | tag => exact ⟨_, fun _ => rfl⟩

end Whitespace

namespace Gfm

open Whitespace

/-- No white space is shown in the tables among some elements. -/
def HushedTables (found : List Marked) : Prop := ∀ n ∈ found, IsGrid White n → IsGrid Hushed n

theorem hushed_nil : HushedTables [] := fun _ member => nomatch member

theorem white_grid_marks {μ : Type} (f : Mark → μ) (n n' : Marked) (same : n.mapMarks f = n'.mapMarks f) :
    IsGrid White n ↔ IsGrid White n' := by
  have read (n : Marked) : IsGrid White (n.mapMarks f) ↔ IsGrid White n := grid_marks f White n
  rw [← read n, same, read]

mutual

theorem fill_hushed (keep : Bool) (n : Marked) (flow : Flow) (after : List Whitespace.Event) :
    HushedTables (flowing keep (fill keep n (backward (forward flow (events keep n ++ after))).2).1) := by
  cases n with
  | text m data =>
      cases (backward (forward flow (events keep (.text m data) ++ after))).2 <;> exact hushed_nil
  | comment m data => exact hushed_nil
  | document m ks => exact hushed_nil
  | element m t a ks =>
      have plain (grid : IsGrid White (.element m t a ks)) : isPlainBlock keep (.element m t a ks) :=
        named_block keep "table" (by decide) (by decide) _ grid.named
      generalize filled : (fill keep (.element m t a ks)
        (backward (forward flow (events keep (.element m t a ks) ++ after))).2).1 = n
      have self : IsGrid White n → IsGrid Hushed n := fun grid => by
        have same := fill_unnoted (fun _ => ()) (fun _ _ => rfl) keep (.element m t a ks)
          (backward (forward flow (events keep (.element m t a ks) ++ after))).2
        rw [filled] at same
        have unfilled := (white_grid_marks (fun _ => ()) _ _ same).mp grid
        rw [plain_settled (plain unfilled), fill_element m t a ks keep (plain unfilled).2] at filled
        rw [← filled]
        exact collapse_grid keep _ unfilled
      by_cases open_ : isKept keep t
      · rw [fill, if_pos open_] at filled
        have shape : .element m t a ks = n := filled
        subst shape
        rw [flowing, if_pos open_]
        exact List.forall_mem_singleton.mpr self
      · obtain ⟨flow', first⟩ := silent_first keep t flow
        rw [fill, if_neg open_, events, if_neg open_, List.cons_append, first, List.append_assoc] at filled
        have shape : .element m t a
            (fillAll keep ks (backward (forward flow' (eventsOf keep ks ++ ([eventOf keep t] ++ after)))).2).1 = n :=
          filled
        subst shape
        rw [flowing, if_neg open_]
        exact List.forall_mem_cons.mpr ⟨self, fill_all_hushed keep ks flow' _⟩

theorem fill_all_hushed (keep : Bool) (ks : List Marked) (flow : Flow) (after : List Whitespace.Event) :
    HushedTables (flowingAll keep (fillAll keep ks (backward (forward flow (eventsOf keep ks ++ after))).2).1) := by
  cases ks with
  | nil => exact hushed_nil
  | cons n rest =>
      obtain ⟨flow', first⟩ := settled_first flow (events keep n)
      obtain ⟨texts, count, settled⟩ := first (eventsOf keep rest ++ after)
      have here := fill_hushed keep n flow (eventsOf keep rest ++ after)
      rw [settled, fill_enough keep n texts _ count] at here
      rw [eventsOf, List.append_assoc, settled, fillAll, fill_enough keep n texts _ count]
      intro below member
      rcases List.mem_append.mp member with first | later
      · exact here below first
      · exact fill_all_hushed keep rest flow' after below later

end

theorem collapse_hushed (keep : Bool) (root : Marked) :
    HushedTables (flowing keep (collapse keep root)) ∧
      (root.isElement = false → HushedTables (flowingAll keep (collapse keep root).kids)) := by
  have below (ks : List Marked) : HushedTables (flowingAll keep (fillAll keep ks (settle (eventsOf keep ks))).1) := by
    have filled := fill_all_hushed keep ks {} []
    rwa [List.append_nil] at filled
  cases root with
  | text m data => exact ⟨hushed_nil, fun _ => hushed_nil⟩
  | comment m data => exact ⟨hushed_nil, fun _ => hushed_nil⟩
  | document m ks => exact ⟨hushed_nil, fun _ => below ks⟩
  | element m t a ks =>
      refine ⟨?_, fun other => nomatch other⟩
      generalize collapsed : collapse keep (.element m t a ks) = n
      have self : IsGrid White n → IsGrid Hushed n := fun grid => by
        have same := collapse_unnoted (fun _ => ()) (fun _ _ => rfl) keep (.element m t a ks)
        rw [collapsed] at same
        rw [← collapsed]
        exact collapse_grid keep _ ((white_grid_marks (fun _ => ()) _ _ same).mp grid)
      by_cases open_ : isKept keep t
      · rw [collapse, if_pos open_] at collapsed
        subst collapsed
        rw [flowing, if_pos open_]
        exact List.forall_mem_singleton.mpr self
      · rw [collapse, if_neg open_] at collapsed
        subst collapsed
        rw [flowing, if_neg open_]
        exact List.forall_mem_cons.mpr ⟨self, below ks⟩

/-- What is hushed can be told from how the texts are shown. -/
theorem hushed_shown (found found' : List Marked)
    (same : found.map (Node.mapMarks Mark.shown) = found'.map (Node.mapMarks Mark.shown)) (hushed : HushedTables found) :
    HushedTables found' := by
  intro n member grid
  have listed : n.mapMarks Mark.shown ∈ found.map (Node.mapMarks Mark.shown) := by
    rw [same]
    exact List.mem_map_of_mem member
  obtain ⟨n', member', shown⟩ := List.mem_map.mp listed
  have kept := hushed n' member' ((white_grid_marks Mark.shown n' n shown).mpr grid)
  have read (n : Marked) : IsGrid (fun shown _ => shown = some []) (n.mapMarks Mark.shown) ↔ IsGrid Hushed n :=
    grid_marks Mark.shown (fun shown _ => shown = some []) n
  rwa [← read, shown, read] at kept

theorem prepare_hushed (o : Options) (root : Marked) :
    HushedTables (flowing o.preformattedCode (prepare o root)) ∧
      (root.isElement = false → HushedTables (flowingAll o.preformattedCode (prepare o root).kids)) := by
  have same : (prepare o root).mapMarks Mark.shown =
      (collapse o.preformattedCode root).mapMarks Mark.shown := by
    rw [prepare, mark_unnoted Mark.shown (fun _ _ => rfl), mark_blank_unnoted Mark.shown fun _ _ => rfl]
  have kids (n : Marked) : Node.mapAllMarks Mark.shown n.kids = (n.mapMarks Mark.shown).kids := by cases n <;> rfl
  obtain ⟨tree, children⟩ := collapse_hushed o.preformattedCode root
  refine ⟨hushed_shown _ _ ?_ tree, fun other => hushed_shown _ _ ?_ (children other)⟩
  · rw [← flowing_marks, ← flowing_marks, same]
  · rw [← flowing_all_marks, ← flowing_all_marks, kids, kids, same]

end Gfm

end Downmark
