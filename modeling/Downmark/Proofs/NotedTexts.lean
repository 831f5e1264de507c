import Downmark.Proofs.TreeGlyphs
/-!
What is noted on the texts of a prepared tree. Main statement: each text whose white space is collapsed is shown with
all of its solid characters in their order, and no white space is left between them but spaces.
-/

set_option autoImplicit false

namespace Downmark

open Node Whitespace Glyph

/-- A text is shown as its data with other gaps: the same solid characters, and spaces for other white space. -/
structure Regapped (text data : Chars) : Prop where
  inked : ink text = ink data
  spaced : Spaced text

theorem squeeze_regaps (data : Chars) : Regapped (squeeze data) data :=
  ⟨squeeze_from_ink false data, squeeze_spaced false data⟩

/-- Whether the texts among some nodes and below them are all shown so. -/
def Noted (ks : List Marked) : Prop := ∀ m data, .text m data ∈ forest ks → Regapped (shown m data) data

theorem noted_cons (n : Marked) (rest : List Marked) : Noted (n :: rest) ↔ Noted [n] ∧ Noted rest := by
  simp only [Noted, forest, List.append_nil, List.mem_cons, List.mem_append]
  constructor
  · intro noted
    refine ⟨fun m data member => noted m data ?_, fun m data member => noted m data (.inr (.inr member))⟩
    exact member.imp_right .inl
  · rintro ⟨first, later⟩ m data (here | below | rest)
    · exact first m data (.inl here)
    · exact first m data (.inr below)
    · exact later m data rest

theorem noted_text (m : Mark) (data : Chars) : Noted [.text m data] ↔ Regapped (shown m data) data := by
  constructor
  · exact fun noted => noted m data (by simp [forest])
  · rintro regapped m' data' member
    simp only [forest, descendants, List.append_nil, List.mem_singleton] at member
    cases member
    exact regapped

theorem noted_element (m : Mark) (t : String) (a : Attrs) (ks : List Marked) :
    Noted [.element m t a ks] ↔ Noted ks := by
  simp [Noted, forest, descendants]

theorem noted_document (m : Mark) (ks : List Marked) : Noted [.document m ks] ↔ Noted ks := by
  simp [Noted, forest, descendants]

-- A mark that shows the same is as good as the one it replaces.
theorem noted_same (ks ks' : List Marked) (same : mapAllMarks Mark.shown ks = mapAllMarks Mark.shown ks')
    (noted : Noted ks) : Noted ks' := by
  intro m data member
  have inside : Node.text m.shown data ∈ forest (mapAllMarks Mark.shown ks) := by
    rw [same, forest_marks]
    exact List.mem_map_of_mem (f := mapMarks Mark.shown) member
  rw [forest_marks] at inside
  obtain ⟨n, listed, marked⟩ := List.mem_map.mp inside
  cases n with
  | text m' data' =>
      obtain ⟨shows, rfl⟩ := Node.text.inj marked
      have regapped := noted m' data' listed
      rwa [shown, Whitespace.noted, shows] at regapped
  | comment | element | document => cases marked

mutual

theorem fill_noted (keep : Bool) (n : Marked) (texts : List Chars)
    (inked : texts.map ink = (textsIn (events keep n)).map ink) (spaced : ∀ s ∈ texts, Spaced s) (noted : Noted [n]) :
    Noted [(fill keep n texts).1] := by
  cases n with
  | text m data =>
      obtain ⟨s, rest, rfl, here, -⟩ := List.map_eq_cons_iff.mp inked
      exact (noted_text _ data).mpr ⟨here, spaced s List.mem_cons_self⟩
  | comment m data | document m ks => cases texts <;> exact noted
  | element m t a ks =>
      rw [fill]
      cases kept : isKept keep t with
      | true => exact noted
      | false =>
          have inside : textsIn (events keep (.element m t a ks)) = textsIn (eventsOf keep ks) := by
            rw [events, kept, if_neg Bool.false_ne_true, texts_in_silent _ _ (event_silent keep t), texts_in_append,
              texts_in_silent _ _ (event_silent keep t), textsIn, List.append_nil]
          rw [if_neg Bool.false_ne_true]
          rw [noted_element] at noted ⊢
          exact fill_all_noted keep ks texts (by rw [← inside]; exact inked) spaced noted

theorem fill_all_noted (keep : Bool) (ks : List Marked) (texts : List Chars)
    (inked : texts.map ink = (textsIn (eventsOf keep ks)).map ink) (spaced : ∀ s ∈ texts, Spaced s)
    (noted : Noted ks) : Noted (fillAll keep ks texts).1 := by
  cases ks with
  | nil => exact noted
  | cons n rest =>
      rw [eventsOf, texts_in_append, List.map_append] at inked
      obtain ⟨here, there, rfl, first, later⟩ := List.map_eq_append_iff.mp inked
      have enough : here.length = textCount (events keep n) := by
        rw [← texts_in_count, ← List.length_map ink, first, List.length_map]
      rw [noted_cons] at noted
      rw [fillAll, fill_enough keep n here there enough, noted_cons]
      exact ⟨fill_noted keep n here first (fun s member => spaced s (List.mem_append_left _ member)) noted.1,
        fill_all_noted keep rest there later (fun s member => spaced s (List.mem_append_right _ member)) noted.2⟩

end

theorem collapse_noted (keep : Bool) (n : Marked) (noted : Noted [n]) : Noted [collapse keep n] := by
  have filled (ks : List Marked) (noted : Noted ks) : Noted (fillAll keep ks (settle (eventsOf keep ks))).1 :=
    fill_all_noted keep ks _ (settle_ink _) (settle_spaced _) noted
  cases n with
  | text | comment => exact noted
  | element m t a ks =>
      unfold collapse
      dsimp only
      split
      · exact noted
      · rw [noted_element] at noted ⊢
        exact filled ks noted
  | document m ks =>
      rw [collapse, noted_document]
      exact filled ks ((noted_document m ks).mp noted)

theorem noted_below (n below : Marked) (noted : Noted [n]) (inside : below ∈ n :: n.descendants) : Noted [below] := by
  have whole : forest [n] = n :: n.descendants := by rw [forest, forest, List.append_nil]
  intro m data member
  rw [forest, forest, List.append_nil] at member
  refine noted m data ?_
  rw [whole]
  exact inside_below n below inside _ member

theorem fresh_noted (tree : Tree) (fresh : Mark) (unshown : fresh.shown = none) :
    Noted [tree.mapMarks fun _ => fresh] := by
  intro m data member
  rw [forest, forest, List.append_nil, descendants_marks, ← List.map_cons] at member
  obtain ⟨n, -, marked⟩ := List.mem_map.mp member
  cases n with
  | text m' data' =>
      obtain ⟨rfl, rfl⟩ := Node.text.inj marked
      rw [shown, Whitespace.noted, unshown]
      exact squeeze_regaps data'
  | comment | element | document => cases marked

theorem prepare_noted (o : Options) (n : Marked) (noted : Noted [n]) : Noted [prepare o n] := by
  refine noted_same [collapse o.preformattedCode n] _ ?_ (collapse_noted o.preformattedCode n noted)
  have same : (prepare o n).mapMarks Mark.shown = (collapse o.preformattedCode n).mapMarks Mark.shown := by
    rw [prepare, mark_unnoted Mark.shown (fun _ _ => rfl), mark_blank_unnoted Mark.shown fun _ _ => rfl]
  exact congrArg (fun n => [n]) same.symm

end Downmark
