import Downmark.Proofs.BrokenText
import Downmark.Proofs.LinkParagraphs
/-!
Labels without blank lines. Main statement: as long as no text that is asked for as a label has a blank line, no label
has one that the collector gives out, and nothing that is written behind the text of a link.
-/

set_option autoImplicit false

namespace Downmark

namespace Reference.Collector

-- No label has a blank line in it.
structure Whole (c : Collector) : Prop where
  links : ∀ entry ∈ c.links, ¬ Broken entry.2.label
  numbers : ∀ entry ∈ c.numbers, ¬ Broken entry.2

theorem number_free (n : Nat) : '\n' ∉ Text.ofNat n :=
  fun member => absurd (Text.of_nat_digits n _ member).1 (by decide)

theorem candidate_whole (label : Chars) (n : Nat) (plain : ¬ Broken label) : ¬ Broken (candidate label n) := by
  unfold candidate
  split
  · exact plain
  · have digits : ∀ c ∈ (gapless (' ' :: Text.ofNat (n + 1))).head?, c ≠ '\n' := by
      rintro c first rfl
      have member := (List.mem_filter.mp (List.mem_of_head? first)).1
      exact number_free (n + 1) (by simpa using member)
    have free : ¬ Broken (' ' :: Text.ofNat (n + 1)) := whole_free _ (by simpa using number_free (n + 1))
    rw [whole_iff] at plain free ⊢
    rw [gapless_append, single_append]
    exact ⟨plain, free, fun seam => digits _ seam.2 rfl⟩

theorem add_whole (c : Collector) (whole : c.Whole) (label url : Chars) (title : Option Chars)
    (plain : ¬ Broken label) : ¬ Broken (c.add label url title).1.label ∧ (c.add label url title).2.Whole := by
  have fresh := candidate_whole label (c.choose label url title) plain
  unfold add
  dsimp only
  split
  · rename_i link found
    obtain ⟨before, after, shape, -⟩ := List.lookup_eq_some_iff.mp found
    have member : (_, link) ∈ c.links := shape ▸ List.mem_append_right before List.mem_cons_self
    exact ⟨whole.links _ member, whole⟩
  · refine ⟨by split <;> exact fresh, fun entry member => ?_, whole.numbers⟩
    rcases List.mem_append.mp member with old | new
    · exact whole.links entry old
    · rw [List.mem_singleton.mp new]
      exact fresh

theorem add_numbered_whole (c : Collector) (whole : c.Whole) (url : Chars) (title : Option Chars) :
    ¬ Broken (c.addNumbered url title).1.label ∧ (c.addNumbered url title).2.Whole := by
  unfold addNumbered
  split
  · rename_i label found
    obtain ⟨before, after, shape, -⟩ := List.lookup_eq_some_iff.mp found
    have member : (_, label) ∈ c.numbers := shape ▸ List.mem_append_right before List.mem_cons_self
    exact ⟨whole.numbers _ member, whole⟩
  · obtain ⟨given, kept⟩ := add_whole c.issueNumber.2 ⟨whole.links, whole.numbers⟩ c.issueNumber.1 url title
      (whole_free _ (number_free _))
    refine ⟨given, kept.links, fun entry member => ?_⟩
    rcases List.mem_append.mp member with old | new
    · exact kept.numbers entry old
    · rw [List.mem_singleton.mp new]
      exact given

end Reference.Collector

namespace Link

theorem ask_whole (label : Chars) (request : Reference.Collector → Reference.Added × Reference.Collector)
    (answer : Chars) (s u : State)
    (kept : ¬ Broken (request s.references).1.label ∧ (request s.references).2.Whole)
    (asked : ask label request s = .ok answer u) : ¬ Broken answer ∧ u.references.Whole := by
  obtain ⟨v, told, same, -⟩ := Render.ask_answered label request s
  obtain ⟨rfl, rfl⟩ := EStateM.Result.ok.inj (told.symm.trans asked)
  exact same ▸ kept

theorem bracketed_whole (label : Chars) (plain : ¬ Broken label) : ¬ Broken ('[' :: label ++ [']']) := by
  rw [whole_iff] at plain ⊢
  have parts : gapless ('[' :: label ++ [']']) = ['['] ++ (gapless label ++ [']']) := by
    rw [List.cons_append, gapless_cons, gapless_append]
    rfl
  rw [parts]
  exact (single_around _ _ _ _ (List.isChain_singleton _) (List.isChain_singleton _) (by decide) (by decide)).mpr plain

theorem suffix_whole (text url : Chars) (title : Option Chars) (style : LabelStyle) (s u : State) (suffix : Chars)
    (whole : s.references.Whole) (plain : style ≠ .full → ¬ Broken text)
    (worked : referenceSuffix text url title style s = .ok suffix u) : ¬ Broken suffix ∧ u.references.Whole := by
  unfold referenceSuffix at worked
  split at worked
  · obtain ⟨label, v, asked, ended⟩ := (Render.bind_ok_iff _ _ _ _ _).mp worked
    cases ended
    obtain ⟨given, kept⟩ := ask_whole _ _ _ s _ (s.references.add_numbered_whole whole url title) asked
    exact ⟨bracketed_whole label given, kept⟩
  · rename_i named
    have short : style ≠ .full := fun full => named (by simp [full])
    obtain ⟨label, v, asked, ended⟩ := (Render.bind_ok_iff _ _ _ _ _).mp worked
    obtain ⟨given, kept⟩ := ask_whole _ _ _ s _ (s.references.add_whole whole text url title (plain short)) asked
    split at ended
    · cases ended
      exact ⟨bracketed_whole label given, kept⟩
    · cases ended
      exact ⟨by split <;> decide, kept⟩

end Link

end Downmark
