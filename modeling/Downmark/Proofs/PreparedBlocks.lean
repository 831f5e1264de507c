import Downmark.Proofs.Collapsed
import Downmark.Prepared
/-!
Preparing block elements that stand side by side. The border of a block parts the texts before it from those
after it, so nothing is known of one block that reaches the next. Main statement: the blocks of a container
are prepared each by itself, and of the container only the items of a list learn anything.
-/

set_option autoImplicit false

namespace Downmark

namespace Whitespace

theorem forward_border (flow : Flow) (before after : List Event) :
    forward flow (before ++ .border :: after) = forward flow before ++ .border :: forward {} after := by
  induction before generalizing flow with
  | nil => rfl
  | cons e rest ih => cases e <;> simp only [List.cons_append, forward, ih]

theorem backward_border (before after : List Event) :
    backward (before ++ .border :: after) = ((backward before).1, (backward before).2 ++ (backward after).2) := by
  induction before with
  | nil => rfl
  | cons e rest ih =>
      cases e with
      | text s =>
          rw [List.cons_append, backward, backward, ih]
          dsimp only
          split <;> rfl
      | border | solid | tag => simp only [List.cons_append, backward, ih]

theorem settle_border (before after : List Event) :
    settle (before ++ .border :: after) = settle before ++ settle after := by
  rw [settle, forward_border, backward_border]
  rfl

theorem element_text_count {μ : Type} (keep : Bool) (m : μ) (t : String) (a : Attrs) (ks : List (Node μ)) :
    textCount (events keep (.element m t a ks)) = if isKept keep t then 0 else textCount (eventsOf keep ks) := by
  have silent := event_silent keep t
  rw [events]
  split
  · exact text_count_silent _ _ silent
  · rw [text_count_silent _ _ silent, text_count_append, text_count_silent _ _ silent]
    rfl

mutual

theorem fill_enough (keep : Bool) (n : Marked) (texts more : List Chars)
    (enough : texts.length = textCount (events keep n)) :
    fill keep n (texts ++ more) = ((fill keep n texts).1, more) := by
  cases n with
  | text m data =>
      obtain ⟨s, rfl⟩ := List.length_eq_one_iff.mp enough
      rfl
  | comment m data | document m ks =>
      obtain rfl := List.eq_nil_of_length_eq_zero enough
      rfl
  | element m t a ks =>
      rw [element_text_count] at enough
      rw [fill, fill]
      by_cases kept : isKept keep t
      · rw [if_pos kept] at enough
        obtain rfl := List.eq_nil_of_length_eq_zero enough
        rw [if_pos kept, if_pos kept]
        rfl
      · rw [if_neg kept] at enough
        rw [if_neg kept, if_neg kept, fill_all_enough keep ks texts more enough]

theorem fill_all_enough (keep : Bool) (ks : List Marked) (texts more : List Chars)
    (enough : texts.length = textCount (eventsOf keep ks)) :
    fillAll keep ks (texts ++ more) = ((fillAll keep ks texts).1, more) := by
  cases ks with
  | nil =>
      obtain rfl := List.eq_nil_of_length_eq_zero enough
      rfl
  | cons n rest =>
      rw [eventsOf, text_count_append] at enough
      obtain ⟨here, there, rfl, first, later⟩ := parted_at texts _ _ enough
      rw [List.append_assoc, fillAll, fillAll, fill_enough keep n here _ first, fill_enough keep n here _ first]
      simp only [fill_all_enough keep rest there more later]

end

section

variable (m : Mark) (t : String) (a : Attrs) (ks : List Marked)

-- The texts of an element that are settled by themselves are those it is filled with.
theorem fill_element (keep : Bool) (inner : isKept keep t = false) (more : List Chars) :
    fill keep (.element m t a ks) (settle (eventsOf keep ks) ++ more) =
      (collapse keep (.element m t a ks), more) := by
  have enough : (settle (eventsOf keep ks)).length = textCount (events keep (.element m t a ks)) := by
    rw [settle_count, element_text_count, inner]
    rfl
  rw [fill_enough keep _ _ more enough, fill, collapse, inner]
  rfl

theorem block_events {μ : Type} (mark : μ) (kids : List (Node μ)) (block : isBlockTag t = true) :
    events false (.element mark t a kids) = .border :: (eventsOf false kids ++ [.border]) := by
  simp [events, isKept, eventOf, block]

theorem settle_block (block : isBlockTag t = true) (rest : List Event) :
    settle (events false (.element m t a ks) ++ rest) = settle (eventsOf false ks) ++ settle rest := by
  rw [block_events t a m ks block, List.cons_append, List.append_assoc]
  exact settle_border (eventsOf false ks) rest

end

theorem collapse_blocks (ks : List Marked) (blocks : ∀ n ∈ ks, n.isBlock = true) :
    (fillAll false ks (settle (eventsOf false ks))).1 = ks.map (collapse false) := by
  induction ks with
  | nil => rfl
  | cons n rest ih =>
      rw [List.forall_mem_cons] at blocks
      cases n with
      | text | comment | document => exact absurd (show isBlockTag "" = true from blocks.1) (by decide)
      | element m t a ks =>
          rw [eventsOf, settle_block m t a ks blocks.1, fillAll, fill_element m t a ks false rfl,
            List.map_cons, ← ih blocks.2]

end Whitespace

theorem mark_all_blank_map (ks : List Marked) :
    Node.markAllBlank ks = (ks.map fun n => (Node.markBlank n).1, ks.any fun n => (Node.markBlank n).2) := by
  induction ks with
  | nil => rfl
  | cons n rest ih => simp [Node.markAllBlank, ih]

theorem mark_all_map (o : Options) (ks : List Marked) :
    ListMarker.markAll o ks = ks.map (ListMarker.mark o) := by
  induction ks with
  | nil => rfl
  | cons n rest ih => simp [ListMarker.markAll, ih]

-- Whether anything is to be seen below a node, told by the pass that finds the blank elements.
def isSeen (n : Marked) : Bool := (Node.markBlank (Whitespace.collapse false n)).2

theorem collapse_named (keep : Bool) (name : String) (n : Marked) :
    (Node.markBlank (Whitespace.collapse keep n)).1.isNamed name = n.isNamed name := by
  cases n with
  | element m t a ks =>
      unfold Whitespace.collapse
      dsimp only
      split <;> rfl
  | text | comment | document => rfl

theorem seen_container (m : Mark) (t : String) (a : Attrs) (ks : List Marked) (blocks : ∀ n ∈ ks, n.isBlock = true) :
    isSeen (.element m t a ks) = (staysBlankTag t || ks.any isSeen) := by
  have collapsed : Whitespace.collapse false (.element m t a ks) =
      .element m t a (ks.map (Whitespace.collapse false)) := by
    simp [Whitespace.collapse, Whitespace.isKept, Whitespace.collapse_blocks ks blocks]
  rw [isSeen, collapsed, Node.markBlank, mark_all_blank_map, List.any_map]
  rfl

section

variable (o : Options) (flowing : o.preformattedCode = false)

include flowing in
theorem prepare_blank (m : Mark) (t : String) (a : Attrs) (ks : List Marked) :
    (prepare o (.element m t a ks)).mark.blank = !isSeen (.element m t a ks) := by
  have kept : Whitespace.isKept false t = false := rfl
  rw [isSeen, prepare, flowing, Whitespace.collapse, kept]
  rfl

include flowing in
theorem prepare_map (ks : List Marked) :
    (ks.map (Whitespace.collapse false)).map (fun n => ListMarker.mark o (Node.markBlank n).1) =
      ks.map (prepare o) := by
  simp [prepare, flowing]

variable (m : Mark) (t : String) (a : Attrs) (ks : List Marked) (blocks : ∀ n ∈ ks, n.isBlock = true)

include flowing blocks

theorem prepare_document : prepare o (.document m ks) = .document m (ks.map (prepare o)) := by
  rw [prepare, flowing, Whitespace.collapse, Whitespace.collapse_blocks ks blocks, Node.markBlank,
    mark_all_blank_map, ListMarker.mark, mark_all_map, ← prepare_map o flowing, List.map_map]
  rfl

theorem prepare_container : prepare o (.element m t a ks) =
    .element { m with blank := !(staysBlankTag t || ks.any isSeen) } t a
      (if isListTag t then ListMarker.handOut (ListMarker.ofList o (.element m t a ks)) (ks.map (prepare o))
        else ks.map (prepare o)) := by
  have collapsed : Whitespace.collapse false (.element m t a ks) =
      .element m t a (ks.map (Whitespace.collapse false)) := by
    simp [Whitespace.collapse, Whitespace.isKept, Whitespace.collapse_blocks ks blocks]
  have count : ListMarker.countItems ((ks.map (Whitespace.collapse false)).map fun n => (Node.markBlank n).1) =
      ListMarker.countItems ks := by
    simp [ListMarker.countItems, List.countP_map, Function.comp_def, collapse_named]
  have seen : ((ks.map (Whitespace.collapse false)).any fun n => (Node.markBlank n).2) = ks.any isSeen := by
    rw [List.any_map]
    rfl
  have lists (m' : Mark) : ListMarker.ofList o (.element m' t a
      ((ks.map (Whitespace.collapse false)).map fun n => (Node.markBlank n).1)) =
        ListMarker.ofList o (.element m t a ks) := by
    simp only [ListMarker.ofList, Node.kids, Node.tag, Node.attrs, count]
    rfl
  rw [prepare, flowing, collapsed, Node.markBlank, mark_all_blank_map, ListMarker.mark, mark_all_map, lists, seen,
    ← prepare_map o flowing, List.map_map]
  rfl

end

end Downmark
