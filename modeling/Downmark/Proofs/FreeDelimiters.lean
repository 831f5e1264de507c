import Mathlib.Logic.Function.Iterate
import Downmark.CommonMark.DelimiterSearch
import Downmark.Proofs.Delimiters
/-!
Free delimiters, which neither the text of an element has nor, unescaped, the Markdown of its content. Main statements:
the search from occurrence to occurrence ends, with what there is to be found. A free delimiter is chosen if there is
one, and the preferred one wherever the other one is no better.
-/

set_option autoImplicit false

namespace Downmark.Inline

/-- A place in some Markdown where a delimiter occurs unescaped. -/
structure Unescaped (delimiter content : Chars) (place : Nat) : Prop where
  inside : place ≤ content.length
  occurs : delimiter <+: content.drop place
  bare : ¬ Escape.Shielded (content.take place)

theorem unescaped_iff (delimiter content : Chars) : (∃ place, Unescaped delimiter content place) ↔
    ∃ before after, content = before ++ delimiter ++ after ∧ ¬ Escape.Shielded before := by
  constructor
  · rintro ⟨place, -, ⟨after, rest⟩, bare⟩
    refine ⟨content.take place, after, ?_, bare⟩
    rw [List.append_assoc, rest, List.take_append_drop]
  · rintro ⟨before, after, rfl, bare⟩
    refine ⟨before.length, by simp, ?_, ?_⟩
    · rw [List.append_assoc, List.drop_left]
      exact List.prefix_append delimiter after
    · rwa [List.append_assoc, List.take_left]

theorem slashes_before_odd (content : Chars) (place : Nat) (inside : place ≤ content.length) :
    slashesBefore content place % 2 = 1 ↔ Escape.Shielded (content.take place) := by
  induction place with
  | zero => simp [slashesBefore, Escape.shielded_nil]
  | succ place ih =>
      have shielded := ih (Nat.le_of_succ_le inside)
      rw [← List.take_append_getElem inside, Escape.shielded_last, ← shielded, slashesBefore,
        List.getElem?_eq_getElem inside]
      by_cases slash : content[place] = '\\'
      · rw [slash, if_pos rfl, eq_self, true_and]
        omega
      · simp [slash]

section

variable (delimiter content : Chars)

theorem place_from_some (start place : Nat) : placeFrom delimiter content start = some place ↔
    (start ≤ place ∧ place ≤ content.length) ∧ delimiter <+: content.drop place ∧
      ∀ earlier, start ≤ earlier → earlier < place → ¬ delimiter <+: content.drop earlier := by
  simp only [placeFrom, List.find?_range'_eq_some, List.mem_range'_1, starts_with_iff, Bool.not_eq_true',
    ← Bool.not_eq_true]
  constructor
  · rintro ⟨here, ⟨first, last⟩, before⟩
    exact ⟨⟨first, by omega⟩, here, before⟩
  · rintro ⟨⟨first, last⟩, here, before⟩
    exact ⟨here, ⟨first, by omega⟩, before⟩

theorem place_from_none (start : Nat) : placeFrom delimiter content start = none ↔
    ∀ place, start ≤ place → place ≤ content.length → ¬ delimiter <+: content.drop place := by
  simp only [placeFrom, List.find?_range'_eq_none, Bool.not_eq_true', ← Bool.not_eq_true, starts_with_iff]
  constructor
  · exact fun none place first last => none place first (by omega)
  · exact fun none place first last => none place first (by omega)

namespace Search

-- What has been found out on the way: up to where the search has come, every occurrence is escaped.
def Sound : Search → Prop
  | .reached place => place ≤ content.length ∧ delimiter <+: content.drop place ∧
      ∀ earlier < place, ¬ Unescaped delimiter content earlier
  | .ended found => found = true ↔ ∃ place, Unescaped delimiter content place

theorem go_on_sound (start : Nat) (passed : ∀ earlier < start, ¬ Unescaped delimiter content earlier) :
    Sound delimiter content (goOn (placeFrom delimiter content start)) := by
  cases next : placeFrom delimiter content start with
  | none =>
      rw [place_from_none] at next
      refine iff_of_false Bool.false_ne_true fun ⟨place, found⟩ => ?_
      rcases Nat.lt_or_ge place start with before | behind
      · exact passed place before found
      · exact next place behind found.inside found.occurs
  | some place =>
      obtain ⟨⟨-, inside⟩, occurs, between⟩ := (place_from_some delimiter content start place).mp next
      refine ⟨inside, occurs, fun earlier less found => ?_⟩
      rcases Nat.lt_or_ge earlier start with before | behind
      · exact passed earlier before found
      · exact between earlier behind less found.occurs

theorem start_sound : Sound delimiter content (start delimiter content) :=
  go_on_sound delimiter content 0 fun _ none => absurd none (Nat.not_lt_zero _)

theorem step_sound (s : Search) (sound : Sound delimiter content s) :
    Sound delimiter content (step delimiter content s) := by
  cases s with
  | ended found => exact sound
  | reached place =>
      obtain ⟨inside, occurs, passed⟩ := sound
      have parity := slashes_before_odd content place inside
      rw [step]
      split
      · rename_i even
        have bare : ¬ Escape.Shielded (content.take place) := by
          rw [← parity]
          omega
        exact iff_of_true rfl ⟨place, inside, occurs, bare⟩
      · rename_i odd
        refine go_on_sound delimiter content (place + 1) fun earlier less found => ?_
        rcases Nat.lt_succ_iff_lt_or_eq.mp less with before | rfl
        · exact passed earlier before found
        · exact found.bare (parity.mp (by omega))

/-- The number of places that an occurrence may still be at. -/
def ahead : Search → Nat
  | .reached place => content.length + 1 - place
  | .ended _ => 0

theorem step_ahead (place : Nat) (inside : place ≤ content.length) :
    ahead content (step delimiter content (.reached place)) < ahead content (.reached place) := by
  rw [step]
  split
  · change 0 < content.length + 1 - place
    omega
  · cases next : placeFrom delimiter content (place + 1) with
    | none =>
        change 0 < content.length + 1 - place
        omega
    | some later =>
        obtain ⟨⟨further, -⟩, -⟩ := (place_from_some delimiter content (place + 1) later).mp next
        change content.length + 1 - later < content.length + 1 - place
        omega

theorem sound_ends (s : Search) (sound : Sound delimiter content s) : ∃ rounds ≤ ahead content s, ∃ found,
    (step delimiter content)^[rounds] s = .ended found ∧
      (found = true ↔ ∃ place, Unescaped delimiter content place) := by
  induction left : ahead content s using Nat.strong_induction_on generalizing s with
  | _ n ih =>
      cases s with
      | ended found => exact ⟨0, Nat.zero_le _, found, rfl, sound⟩
      | reached place =>
          have nearer := step_ahead delimiter content place sound.1
          rw [left] at nearer
          obtain ⟨rounds, few, found, ends, right⟩ :=
            ih _ nearer _ (step_sound delimiter content (.reached place) sound) rfl
          exact ⟨rounds + 1, by omega, found, by rw [Function.iterate_succ_apply, ends], right⟩

theorem start_ahead : ahead content (start delimiter content) ≤ content.length + 1 := by
  rw [start]
  cases placeFrom delimiter content 0 with
  | none => exact Nat.zero_le _
  | some place => exact Nat.sub_le _ _

end Search

end

section

variable {μ : Type} (n : Node μ) (content : Chars)

/-- A delimiter that can be told from all that it is put around. -/
structure Free (delimiter : Chars) : Prop where
  absent : ¬ delimiter <:+: n.textContent
  escaped : ∀ before after, content = before ++ delimiter ++ after → Escape.Shielded before

theorem free_iff (delimiter : Chars) : Free n content delimiter ↔ ¬ Collides n.textContent content delimiter := by
  constructor
  · rintro ⟨absent, escaped⟩ (inside | ⟨before, after, place, bare⟩)
    · exact absent inside
    · exact bare (escaped before after place)
  · intro apart
    refine ⟨fun inside => apart (.inl inside), fun before after place => ?_⟩
    by_contra bare
    exact apart (.inr ⟨before, after, place, bare⟩)

instance (delimiter : Chars) : Decidable (Free n content delimiter) :=
  decidable_of_iff (¬ collides n.textContent content delimiter = true) (by rw [collides_iff, free_iff])

theorem choose_free (preferred alternate : Chars) (one : Free n content preferred ∨ Free n content alternate) :
    Free n content (chooseDelimiter n.textContent content preferred alternate) := by
  simp only [free_iff] at one ⊢
  have chosen := choose_chosen n.textContent content preferred alternate
  generalize chooseDelimiter n.textContent content preferred alternate = delimiter at chosen ⊢
  cases chosen with
  | preferred free => exact free
  | alternate taken free => exact free
  | neither taken other => exact absurd one (not_or.mpr ⟨not_not_intro taken, not_not_intro other⟩)

theorem choose_preferred (preferred alternate : Chars)
    (kept : Free n content preferred ∨ ¬ Free n content preferred ∧ ¬ Free n content alternate) :
    chooseDelimiter n.textContent content preferred alternate = preferred := by
  simp only [free_iff, not_not] at kept
  have chosen := choose_chosen n.textContent content preferred alternate
  generalize chooseDelimiter n.textContent content preferred alternate = delimiter at chosen ⊢
  cases chosen with
  | preferred free => rfl
  | alternate taken free =>
      rcases kept with first | ⟨-, other⟩
      · exact absurd taken first
      · exact absurd other free
  | neither taken other => rfl

theorem delimiter_choice_exact (preferred alternate : Chars) :
    (Free n content preferred ∨ Free n content alternate →
      Free n content (chooseDelimiter n.textContent content preferred alternate)) ∧
    (Free n content preferred ∨ ¬ Free n content preferred ∧ ¬ Free n content alternate →
      chooseDelimiter n.textContent content preferred alternate = preferred) ∧
    ∀ delimiter, ∃ rounds ≤ content.length + 1, ∃ found,
      (Search.step delimiter content)^[rounds] (Search.start delimiter content) = .ended found ∧
      (found = true ↔ ∃ before after, content = before ++ delimiter ++ after ∧ ¬ Escape.Shielded before) ∧
      collides n.textContent content delimiter = (Text.contains delimiter n.textContent || found) := by
  refine ⟨choose_free n content preferred alternate, choose_preferred n content preferred alternate,
    fun delimiter => ?_⟩
  obtain ⟨rounds, few, found, ends, answer⟩ := Search.sound_ends delimiter content _
    (Search.start_sound delimiter content)
  rw [unescaped_iff] at answer
  refine ⟨rounds, few.trans (Search.start_ahead delimiter content), found, ends, answer, ?_⟩
  rw [Bool.eq_iff_iff, Bool.or_eq_true, collides_iff, contains_iff, answer]
  rfl

end

-- The stars that a backslash stands before overlap with others that none does.
theorem overlapping_stars_avoided :
    let strong : Node Unit := .element () "strong" [] [.text () ['a']]
    let content := "\\***a".toList
    (¬ Free strong content "**".toList ∧ Free strong content "__".toList ∧
      Free strong content (chooseDelimiter strong.textContent content "**".toList "__".toList)) ∧
    chooseDelimiter strong.textContent content "__".toList "**".toList = "__".toList := by
  intro strong content
  have taken : ¬ Free strong content "**".toList := by decide
  have free : Free strong content "__".toList := by decide
  exact ⟨⟨taken, free, (delimiter_choice_exact strong content _ _).1 (.inr free)⟩,
    (delimiter_choice_exact strong content _ _).2.1 (.inl free)⟩

end Downmark.Inline
