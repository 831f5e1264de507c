import Downmark.Proofs.BlockTexts
import Downmark.Proofs.Outline
/-!
Preparing outlines. The text of an item stands alone before the border of the list after it, so it is only
squeezed. Main statement: on each item its marker is noted, on each text how it is shown, and nothing is blank.
-/

set_option autoImplicit false

namespace Downmark

namespace Whitespace

theorem squeezed_spaceless (text : ItemText) : (squeeze text.chars).head?.any (· == ' ') = false ∧
    (squeeze text.chars).getLast?.any (· == ' ') = false := by
  have solid (c : Option Char) (seen : c.any Text.isBlank = false) : c.any (· == ' ') = false := by
    cases c with
    | none => rfl
    | some c =>
        have other : c ≠ ' ' := by
          rintro rfl
          exact absurd seen (by decide)
        simpa using other
  rw [(squeezed_ends text).1, (squeezed_ends text).2]
  exact ⟨solid _ text.first, solid _ text.last⟩

theorem settle_text (text : ItemText) : settle [.text text.chars] = [squeeze text.chars] := by
  obtain ⟨first, last⟩ := squeezed_spaceless text
  have kept : dropSpace (squeeze text.chars) = squeeze text.chars := by
    refine drop_space_other _ fun space => ?_
    rw [space] at first
    cases first
  have forward : forward {} [.text text.chars] = [.text (squeeze text.chars)] := by
    change [Event.text (dropSpace (squeeze text.chars))] = _
    rw [kept]
  rw [settle, forward, backward, backward]
  dsimp only
  split
  · rfl
  · rw [if_pos rfl, Text.trim_end_none _ _ last]

-- The text of an item keeps to itself: after it comes the border of a block, or the end of the item.
theorem settle_item (text : ItemText) (blocks : List Marked) (block : ∀ n ∈ blocks, n.isBlock = true) :
    settle (.text text.chars :: eventsOf false blocks) = squeeze text.chars :: settle (eventsOf false blocks) := by
  cases blocks with
  | nil => exact settle_text text
  | cons n rest =>
      cases n with
      | text | comment | document => exact absurd (show isBlockTag "" = true from block _ List.mem_cons_self) (by decide)
      | element m t a ks =>
          have shape : eventsOf false (.element m t a ks :: rest) =
              .border :: (eventsOf false ks ++ .border :: eventsOf false rest) := by
            rw [eventsOf, block_events t a m ks (block _ List.mem_cons_self)]
            simp
          have own := settle_border [.text text.chars] (eventsOf false ks ++ .border :: eventsOf false rest)
          have others := settle_border [] (eventsOf false ks ++ .border :: eventsOf false rest)
          rw [settle_text text] at own
          rw [shape]
          exact own.trans (congrArg _ others.symm)

theorem collapse_item (m : Mark) (a : Attrs) (text : ItemText) (blocks : List Marked)
    (block : ∀ n ∈ blocks, n.isBlock = true) :
    collapse false (.element m "li" a (.text {} text.chars :: blocks)) =
      .element m "li" a (.text { shown := some (squeeze text.chars) } text.chars :: blocks.map (collapse false)) := by
  have others := collapse_blocks blocks block
  have events : eventsOf false (.text {} text.chars :: blocks : List Marked) =
      .text text.chars :: eventsOf false blocks := rfl
  rw [collapse, if_neg (by decide), events, settle_item text blocks block, ← others]
  rfl

end Whitespace

theorem text_seen (text : ItemText) : Text.isBlankText text.chars = false := by
  obtain ⟨chars, some, first, last⟩ := text
  obtain ⟨c, rest, rfl⟩ := List.exists_cons_of_ne_nil some
  have solid : Text.isBlank c = false := first
  simp [Text.isBlankText, solid]

-- What is noted on the text of an item.
def ItemText.prepared (text : ItemText) : Marked := .text { shown := .some (Whitespace.squeeze text.chars) } text.chars

theorem prepare_item (o : Options) (flowing : o.preformattedCode = false) (m : Mark) (a : Attrs) (text : ItemText)
    (blocks : List Marked) (block : ∀ n ∈ blocks, n.isBlock = true) :
    prepare o (.element m "li" a (.text {} text.chars :: blocks)) =
      .element { m with blank := false } "li" a (text.prepared :: blocks.map (prepare o)) := by
  rw [prepare, flowing, Whitespace.collapse_item m a text blocks block, ← prepare_map o flowing]
  simp [Node.markBlank, Node.markAllBlank, mark_all_blank_map, ListMarker.mark, ListMarker.markAll, mark_all_map,
    text_seen, isListTag, ItemText.prepared, Function.comp_def]

mutual

def Outline.prepared (o : Options) : Outline → Marked
  | .list ordered a items => .element {} (listTag ordered) a (items.prepared o (markerAt o ordered a) 0)

def Items.prepared (o : Options) (marker : Nat → Chars) (i : Nat) : Items → List Marked
  | .last item => [item.prepared o (some (marker i))]
  | .more item rest => item.prepared o (some (marker i)) :: rest.prepared o marker (i + 1)

def Item.prepared (o : Options) (marker : Option Chars) : Item → Marked
  | .plain a text => .element { marker } "li" a [text.prepared]
  | .nested a text below => .element { marker } "li" a [text.prepared, below.prepared o]

end

theorem list_tag_listed (ordered : Bool) : isListTag (listTag ordered) = true ∧ isBlockTag (listTag ordered) = true := by
  cases ordered <;> exact ⟨rfl, rfl⟩

theorem unmarked_outline (outline : Outline) : (Render.unmark outline.tree).isBlock = true := by
  cases outline with
  | list ordered a items =>
      rw [Outline.tree, Render.unmark_element]
      exact (list_tag_listed ordered).2

theorem unmarked_item (item : Item) : ∃ (a : Attrs) (text : ItemText) (blocks : List Marked), Render.unmark item.tree =
    .element {} "li" a (.text {} text.chars :: blocks) ∧ ∀ n ∈ blocks, n.isBlock = true := by
  cases item with
  | plain a text => exact ⟨a, text, [], rfl, by simp⟩
  | nested a text below =>
      refine ⟨a, text, [Render.unmark below.tree], ?_, by simpa using unmarked_outline below⟩
      rw [Item.tree, Render.unmark_element]
      rfl

theorem unmarked_items (items : Items) :
    (∀ n ∈ items.trees.map Render.unmark, n.isBlock = true) ∧
      ListMarker.countItems (items.trees.map Render.unmark) = items.count := by
  have one (item : Item) : (Render.unmark item.tree).isBlock = true ∧
      (Render.unmark item.tree).isNamed "li" = true := by
    obtain ⟨a, text, blocks, shape, -⟩ := unmarked_item item
    rw [shape]
    exact ⟨rfl, rfl⟩
  cases items with
  | last item =>
      refine ⟨by simpa [Items.trees] using (one item).1, ?_⟩
      simp [Items.trees, ListMarker.countItems, (one item).2, Items.count]
  | more item rest =>
      obtain ⟨blocks, count⟩ := unmarked_items rest
      refine ⟨?_, ?_⟩
      · simpa [Items.trees] using ⟨(one item).1, by simpa using blocks⟩
      · rw [Items.trees, List.map_cons, Items.count, ← count]
        simp [ListMarker.countItems, (one item).2]

theorem of_list_range (o : Options) (m : Mark) (ordered : Bool) (a : Attrs) (ks : List Marked) :
    ListMarker.ofList o (.element m (listTag ordered) a ks) =
      (List.range (ListMarker.countItems ks)).map (markerAt o ordered a) := by
  cases ordered with
  | true => rfl
  | false =>
      refine Eq.trans ?_ (List.map_const' ..).symm
      rw [List.length_range]
      rfl

theorem marker_handed (o : Options) (marker : Chars) (markers : List Chars) (item : Item) (rest : List Marked) :
    ListMarker.handOut (marker :: markers) (item.prepared o none :: rest) =
      item.prepared o (some marker) :: ListMarker.handOut markers rest := by
  cases item <;> rfl

mutual

theorem prepare_outline (o : Options) (flowing : o.preformattedCode = false) (outline : Outline) :
    prepare o (Render.unmark outline.tree) = outline.prepared o := by
  cases outline with
  | list ordered a items =>
      obtain ⟨blocks, count⟩ := unmarked_items items
      obtain ⟨seen, handed⟩ := prepare_items o flowing (markerAt o ordered a) 0 items
      rw [Outline.tree, Render.unmark_element, prepare_container o flowing {} _ a _ blocks, seen, Bool.or_true,
        if_pos (list_tag_listed ordered).1, of_list_range, count, List.range_eq_range', handed]
      rfl

theorem prepare_items (o : Options) (flowing : o.preformattedCode = false) (marker : Nat → Chars) (i : Nat)
    (items : Items) :
    (items.trees.map Render.unmark).any isSeen = true ∧
      ListMarker.handOut ((List.range' i items.count).map marker) ((items.trees.map Render.unmark).map (prepare o)) =
        items.prepared o marker i := by
  cases items with
  | last item =>
      obtain ⟨seen, prepared⟩ := prepare_outlined o flowing item
      refine ⟨by simp [Items.trees, seen], ?_⟩
      simp only [Items.trees, List.map_cons, List.map_nil, Items.count, List.range'_succ, List.range'_zero, prepared,
        marker_handed]
      rfl
  | more item rest =>
      obtain ⟨seen, prepared⟩ := prepare_outlined o flowing item
      refine ⟨by simp [Items.trees, seen], ?_⟩
      rw [Items.trees, Items.count, List.range'_succ, List.map_cons, List.map_cons, List.map_cons, prepared,
        marker_handed, (prepare_items o flowing marker (i + 1) rest).2]
      rfl

theorem prepare_outlined (o : Options) (flowing : o.preformattedCode = false) (item : Item) :
    isSeen (Render.unmark item.tree) = true ∧
    prepare o (Render.unmark item.tree) = item.prepared o none := by
  have seen : isSeen (Render.unmark item.tree) = true := by
    obtain ⟨a, text, blocks, shape, block⟩ := unmarked_item item
    have blank := prepare_blank o flowing {} "li" a (.text {} text.chars :: blocks)
    rw [prepare_item o flowing {} a text blocks block] at blank
    rw [shape]
    simpa [Node.mark] using blank.symm
  refine ⟨seen, ?_⟩
  cases item with
  | plain a text =>
      rw [Item.tree, Render.unmark_element]
      exact prepare_item o flowing {} a text [] (by simp)
  | nested a text below =>
      have block := unmarked_outline below
      rw [Item.tree, Render.unmark_element]
      refine (prepare_item o flowing {} a text [Render.unmark below.tree] (by simpa using block)).trans ?_
      rw [List.map_singleton, prepare_outline o flowing below]
      rfl

end

end Downmark
