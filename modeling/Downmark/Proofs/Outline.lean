import Downmark.Proofs.ContainerLines
import Downmark.Proofs.Spelled
import Downmark.Proofs.Squeezed
/-!
Outlines: lists whose items hold a text each, and possibly another list after it. Every item has a line of
its own, behind the indentations of the items around it and its marker. Main statement: the lines of an
outline have no newlines in them, begin with their indentation, and end with something to see.
-/

set_option autoImplicit false

namespace Downmark

-- A text that is worth a line: neither empty nor with white space at an end.
structure ItemText where
  chars : Chars
  some : chars ≠ []
  first : chars.head?.any Text.isBlank = false
  last : chars.getLast?.any Text.isBlank = false

mutual

inductive Outline where
  | list (ordered : Bool) (attrs : Attrs) (items : Items)

inductive Items where
  | last (item : Item)
  | more (item : Item) (rest : Items)

inductive Item where
  | plain (attrs : Attrs) (text : ItemText)
  | nested (attrs : Attrs) (text : ItemText) (below : Outline)

end

def listTag (ordered : Bool) : String := if ordered then "ol" else "ul"

mutual

def Outline.tree : Outline → Tree
  | .list ordered a items => .element () (listTag ordered) a items.trees

def Items.trees : Items → List Tree
  | .last item => [item.tree]
  | .more item rest => item.tree :: rest.trees

def Item.tree : Item → Tree
  | .plain a text => .element () "li" a [.text () text.chars]
  | .nested a text below => .element () "li" a [.text () text.chars, below.tree]

end

-- The marker of the item with some number of items before it.
def markerAt (o : Options) (ordered : Bool) (a : Attrs) (i : Nat) : Chars :=
  if ordered then ListMarker.numbered (ListMarker.start a + (i : Int)) else ListMarker.bullet o

def ItemText.written (text : ItemText) : Chars := Escape.markdown (Whitespace.squeeze text.chars) []

mutual

def Outline.lines (o : Options) (indent : Chars) : Outline → List Chars
  | .list ordered a items => items.lines o indent (markerAt o ordered a) 0

def Items.lines (o : Options) (indent : Chars) (marker : Nat → Chars) (i : Nat) : Items → List Chars
  | .last item => item.lines o indent (marker i)
  | .more item rest => item.lines o indent (marker i) ++ rest.lines o indent marker (i + 1)

def Item.lines (o : Options) (indent marker : Chars) : Item → List Chars
  | .plain _ text => [indent ++ marker ++ text.written]
  | .nested _ text below =>
      (indent ++ marker ++ text.written) :: below.lines o (indent ++ Text.spaces marker.length)

end

def Items.count : Items → Nat
  | .last _ => 1
  | .more _ rest => rest.count + 1

mutual

-- Whether all numbers of an outline can be written.
def Outline.writable : Outline → Bool
  | .list ordered a items =>
      !(ordered && (Scalar.int (ListMarker.start a + (items.count : Int) - 1)).isEndless) && items.writable

def Items.writable : Items → Bool
  | .last item => item.writable
  | .more item rest => item.writable && rest.writable

def Item.writable : Item → Bool
  | .plain _ _ => true
  | .nested _ _ below => below.writable

end

mutual

theorem outline_lines_indented (o : Options) (p indent : Chars) (outline : Outline) :
    outline.lines o (p ++ indent) = (outline.lines o indent).map (p ++ ·) := by
  cases outline with
  | list ordered a items => exact items_lines_indented o p indent _ 0 items

theorem items_lines_indented (o : Options) (p indent : Chars) (marker : Nat → Chars) (i : Nat) (items : Items) :
    items.lines o (p ++ indent) marker i = (items.lines o indent marker i).map (p ++ ·) := by
  cases items with
  | last item => exact item_lines_indented o p indent _ item
  | more item rest =>
      rw [Items.lines, Items.lines, List.map_append, item_lines_indented o p indent _ item,
        items_lines_indented o p indent marker _ rest]

theorem item_lines_indented (o : Options) (p indent marker : Chars) (item : Item) :
    item.lines o (p ++ indent) marker = (item.lines o indent marker).map (p ++ ·) := by
  cases item with
  | plain a text => simp [Item.lines]
  | nested a text below =>
      have deeper := outline_lines_indented o p (indent ++ Text.spaces marker.length) below
      simp [Item.lines, deeper]

end

-- The lines of what is in an item stand under its text.
theorem nested_lines (o : Options) (a : Attrs) (text : ItemText) (below : Outline) (marker : Chars) :
    (Item.nested a text below).lines o [] marker =
      (marker ++ text.written) :: (below.lines o []).map (Text.spaces marker.length ++ ·) := by
  have deeper := outline_lines_indented o (Text.spaces marker.length) [] below
  rw [List.append_nil] at deeper
  rw [Item.lines, List.nil_append, List.nil_append, deeper]

-- A line of its own: it can be indented, and nothing of it is lost at its end.
structure Line (s : Chars) : Prop where
  some : s ≠ []
  free : '\n' ∉ s
  last : s.getLast?.any Text.isBlank = false

theorem line_indented (p s : Chars) (free : '\n' ∉ p) (line : Line s) : Line (p ++ s) := by
  refine ⟨by simp [line.some], by simp [free, line.free], ?_⟩
  have last := List.getLast?_eq_some_getLast line.some
  have stop := line.last
  rw [List.getLast?_append, last]
  rw [last] at stop
  exact stop

theorem squeezed_ends (text : ItemText) : (Whitespace.squeeze text.chars).head? = text.chars.head? ∧
    (Whitespace.squeeze text.chars).getLast? = text.chars.getLast? := by
  obtain ⟨chars, some, first, last⟩ := text
  dsimp only
  constructor
  · obtain ⟨c, rest, rfl⟩ := List.exists_cons_of_ne_nil some
    have solid := Whitespace.solid_uncollapsible c first
    rw [Whitespace.squeeze, Whitespace.squeeze_from_solid false c rest solid]
    rfl
  · obtain ⟨rest, c, shape⟩ := (List.eq_nil_or_concat chars).resolve_left some
    rw [List.concat_eq_append] at shape
    subst shape
    have solid := Whitespace.solid_uncollapsible c (by simpa using last)
    rw [Whitespace.squeeze, Whitespace.squeeze_from_append, Whitespace.squeeze_from_solid _ c [] solid]
    simp [Whitespace.squeezeFrom]

theorem written_line (text : ItemText) : Line text.written := by
  have spelled := Escape.markdown_spelled (Whitespace.squeeze text.chars) []
  have last : text.written.getLast? = text.chars.getLast? :=
    (Escape.spelled_last _ true _ _ spelled).trans (squeezed_ends text).2
  have final := List.getLast?_eq_some_getLast text.some
  refine ⟨?_, ?_, by rw [last]; exact text.last⟩
  · intro none
    rw [none, final] at last
    cases last
  · refine Escape.spelled_free _ true _ _ spelled fun member => ?_
    exact absurd (Whitespace.squeeze_spaced false text.chars _ member rfl) (by decide)

theorem marker_at_like (o : Options) (ordered : Bool) (a : Attrs) (i : Nat) : MarkerLike (markerAt o ordered a i) := by
  unfold markerAt
  split
  · exact numbered_marker _
  · exact bullet_marker o

-- The first line begins with the first marker, and each line ends with its text.
structure Fits (lines : List Chars) : Prop where
  each : ∀ line ∈ lines, Line line
  first : ∃ line rest, lines = line :: rest ∧ Inked line

theorem fits_some (lines : List Chars) (fits : Fits lines) : lines ≠ [] := by
  obtain ⟨line, rest, rfl, -⟩ := fits.first
  simp

theorem fits_append (a b : List Chars) (first : Fits a) (next : Fits b) : Fits (a ++ b) := by
  obtain ⟨line, rest, rfl, inked⟩ := first.first
  refine ⟨fun l member => ?_, line, rest ++ b, rfl, inked⟩
  rcases List.mem_append.mp member with here | later
  · exact first.each l here
  · exact next.each l later

mutual

theorem outline_fits (o : Options) (outline : Outline) : Fits (outline.lines o []) := by
  cases outline with
  | list ordered a items => exact items_fit o _ (fun i => marker_at_like o ordered a i) 0 items

theorem items_fit (o : Options) (marker : Nat → Chars) (like : ∀ i, MarkerLike (marker i)) (i : Nat) (items : Items) :
    Fits (items.lines o [] marker i) := by
  cases items with
  | last item => exact item_fits o (marker i) (like i) item
  | more item rest =>
      exact fits_append _ _ (item_fits o (marker i) (like i) item) (items_fit o marker like (i + 1) rest)

theorem item_fits (o : Options) (marker : Chars) (like : MarkerLike marker) (item : Item) :
    Fits (item.lines o [] marker) := by
  have marked (text : ItemText) : Line (marker ++ text.written) := line_indented marker _ like.line (written_line text)
  cases item with
  | plain a text =>
      rw [Item.lines, List.nil_append]
      exact ⟨by simpa using marked text, _, [], rfl, inked_append _ _ like.inked⟩
  | nested a text below =>
      have under := outline_fits o below
      rw [nested_lines]
      refine ⟨List.forall_mem_cons.mpr ⟨marked text, ?_⟩, _, _, rfl, inked_append _ _ like.inked⟩
      intro line member
      obtain ⟨inner, listed, rfl⟩ := List.mem_map.mp member
      exact line_indented _ inner (by simp [Text.spaces]) (under.each inner listed)

end

theorem lines_solid (lines : List Chars) (some : lines ≠ []) (each : ∀ line ∈ lines, Line line) :
    Solid (Text.unlines lines) := by
  have starts : (Text.unlines lines).head?.any Text.isNewline = false ∧ Text.unlines lines ≠ [] := by
    obtain ⟨first, rest, rfl⟩ := List.exists_cons_of_ne_nil some
    have line := each first List.mem_cons_self
    obtain ⟨more, whole⟩ := Text.unlines_first first rest
    obtain ⟨c, tail, rfl⟩ := List.exists_cons_of_ne_nil line.some
    have other : c ≠ '\n' := by
      rintro rfl
      exact line.free List.mem_cons_self
    rw [whole]
    exact ⟨by simpa [Text.isNewline] using other, by simp⟩
  refine ⟨starts.2, starts.1, ?_⟩
  obtain ⟨before, final, rfl⟩ := (List.eq_nil_or_concat lines).resolve_left some
  rw [List.concat_eq_append] at each ⊢
  have line := each final (by simp)
  obtain ⟨front, whole⟩ := Text.unlines_last before final
  have last := List.getLast?_eq_some_getLast line.some
  have stop := line.last
  rw [whole, List.getLast?_append, last]
  rw [last] at stop
  exact stop

theorem fits_solid (lines : List Chars) (fits : Fits lines) : Solid (Text.unlines lines) :=
  lines_solid lines (fits_some lines fits) fits.each

end Downmark
