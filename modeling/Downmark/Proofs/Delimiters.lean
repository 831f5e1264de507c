import Downmark.Proofs.RenderedTop
import Downmark.Proofs.SolidEnds
/-!
Emphasis between its delimiters. Main statement: whatever stands around it, an emphasized element is written as a
delimiter, something that begins and ends with no gap, and the same delimiter again. The delimiter is the preferred
one, unless it occurs inside and the other one does not; what is around the element has no part in the choice. Inside
of the delimiters there is no white space at an end where the content of the element has none but gaps.
-/

set_option autoImplicit false

namespace Downmark

theorem strip_iff (part s rest : Chars) : Text.strip? part s = some rest ↔ s = part ++ rest :=
  ⟨Text.eq_append_of_strip, fun same => same ▸ Text.strip_append part rest⟩

theorem starts_with_iff (part s : Chars) : Text.startsWith part s = true ↔ part <+: s := by
  rw [Text.startsWith, Option.isSome_iff_exists]
  exact exists_congr fun rest => (strip_iff part s rest).trans eq_comm

theorem contains_iff (part s : Chars) : Text.contains part s = true ↔ part <:+: s := by
  induction s with
  | nil => rw [Text.contains, List.isEmpty_iff, List.infix_nil]
  | cons c s ih => rw [Text.contains, Bool.or_eq_true, starts_with_iff, ih, List.infix_cons_iff]

namespace Inline

/-- A delimiter collides where the text of an element has it, or the Markdown of its content does and no backslash
takes its meaning away. -/
def Collides (text content delimiter : Chars) : Prop :=
  delimiter <:+: text ∨ ∃ before after, content = before ++ delimiter ++ after ∧ ¬ Escape.Shielded before

theorem unescaped_from_iff (delimiter : Chars) (some : delimiter ≠ []) (s ahead : Chars) (even : Bool)
    (parity : even = true ↔ ¬ Escape.Shielded ahead) : hasUnescapedFrom delimiter even s = true ↔
      ∃ before after, s = before ++ delimiter ++ after ∧ ¬ Escape.Shielded (ahead ++ before) := by
  induction s generalizing ahead even with
  | nil => simp [hasUnescapedFrom, some]
  | cons c s ih =>
      have next : (if c == '\\' then !even else true) = true ↔ ¬ Escape.Shielded (ahead ++ [c]) := by
        rw [Escape.shielded_last, not_and_not_right]
        by_cases slash : c = '\\'
        · simp [slash, ← Bool.not_eq_true, parity]
        · simp [slash]
      rw [hasUnescapedFrom, Bool.or_eq_true, Bool.and_eq_true, starts_with_iff, parity, ih (ahead ++ [c]) _ next]
      constructor
      · rintro (⟨bare, rest, here⟩ | ⟨before, after, rfl, bare⟩)
        · exact ⟨[], rest, here.symm, by rwa [List.append_nil]⟩
        · exact ⟨c :: before, after, rfl, by rwa [List.append_assoc] at bare⟩
      · rintro ⟨before, after, whole, bare⟩
        cases before with
        | nil => exact .inl ⟨by rwa [List.append_nil] at bare, after, whole.symm⟩
        | cons d before =>
            obtain ⟨rfl, rfl⟩ := List.cons.inj whole
            exact .inr ⟨before, after, rfl, by rwa [List.append_assoc]⟩

theorem collides_iff (text content delimiter : Chars) :
    collides text content delimiter = true ↔ Collides text content delimiter := by
  by_cases empty : delimiter = []
  · -- Nothing at all occurs in every text.
    subst empty
    have everywhere : Text.contains [] text = true := (contains_iff [] text).mpr List.nil_infix
    exact iff_of_true (by rw [collides, everywhere, Bool.true_or]) (.inl List.nil_infix)
  · rw [collides, Bool.or_eq_true, contains_iff, hasUnescaped,
      unescaped_from_iff delimiter empty content [] true (by simp [Escape.shielded_nil])]
    rfl

/-- Which delimiter is put around some content. -/
inductive Chosen (text content preferred alternate : Chars) : Chars → Prop where
  | preferred (free : ¬ Collides text content preferred) : Chosen text content preferred alternate preferred
  | alternate (taken : Collides text content preferred) (free : ¬ Collides text content alternate) :
      Chosen text content preferred alternate alternate
  | neither (taken : Collides text content preferred) (other : Collides text content alternate) :
      Chosen text content preferred alternate preferred

theorem choose_chosen (text content preferred alternate : Chars) :
    Chosen text content preferred alternate (chooseDelimiter text content preferred alternate) := by
  have one := collides_iff text content preferred
  have two := collides_iff text content alternate
  unfold chooseDelimiter
  cases taken : collides text content preferred with
  | false => exact .preferred fun found => Bool.false_ne_true (taken.symm.trans (one.mpr found))
  | true =>
      cases also : collides text content alternate with
      | false => exact .alternate (one.mp taken) fun found => Bool.false_ne_true (also.symm.trans (two.mpr found))
      | true => exact .neither (one.mp taken) (two.mp also)

end Inline

namespace Render

open Node Whitespace Inline

def emphasisRule : Rule := { name := "emphasis", filter := .tags ["em", "i"], replacement := Inline.emphasis }

def strongRule : Rule := { name := "strong", filter := .tags ["strong", "b"], replacement := Inline.strong }

theorem solid_end (c : Option Char) (solid : SolidAt c) : c.any Text.isBlank = false := by
  cases c with
  | none => rfl
  | some c => simpa [SolidAt] using solid

end Render

end Downmark
