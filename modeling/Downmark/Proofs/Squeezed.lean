import Downmark.Whitespace.Collapse
/-!
What squeezing leaves of a text, taken up at any place: whether the character before was part of a run
of white space is all that has to be known of what stands before. Main statement: a squeezed text has
no two spaces in a row.
-/

set_option autoImplicit false

namespace Downmark.Whitespace

def inRunAfter (inRun : Bool) (s : Chars) : Bool := s.foldl (fun _ c => isCollapsible c) inRun

def Tight (s : Chars) : Prop := ∀ before after, s ≠ before ++ ' ' :: ' ' :: after

theorem space_collapsible : isCollapsible ' ' = true := rfl

theorem solid_no_space (c : Char) (solid : isCollapsible c = false) : c ≠ ' ' := by
  intro same
  rw [same, space_collapsible] at solid
  cases solid

theorem collapsible_blank (c : Char) (collapsible : isCollapsible c) : Text.isBlank c := by
  simp only [isCollapsible, Bool.or_eq_true, beq_iff_eq] at collapsible
  rcases collapsible with ((rfl | rfl) | rfl) | rfl <;> rfl

theorem solid_uncollapsible (c : Char) (solid : Text.isBlank c = false) : isCollapsible c = false := by
  cases collapsible : isCollapsible c with
  | false => rfl
  | true =>
      rw [collapsible_blank c collapsible] at solid
      cases solid

theorem squeeze_from_solid (inRun : Bool) (c : Char) (s : Chars) (solid : isCollapsible c = false) :
    squeezeFrom inRun (c :: s) = c :: squeezeFrom false s := by
  simp [squeezeFrom, solid]

theorem squeeze_from_blank (inRun : Bool) (c : Char) (s : Chars) (blank : isCollapsible c) :
    squeezeFrom inRun (c :: s) = if inRun then squeezeFrom true s else ' ' :: squeezeFrom true s := by
  simp [squeezeFrom, blank]

theorem squeeze_from_append (inRun : Bool) (s t : Chars) :
    squeezeFrom inRun (s ++ t) = squeezeFrom inRun s ++ squeezeFrom (inRunAfter inRun s) t := by
  induction s generalizing inRun with
  | nil => rfl
  | cons c s ih =>
      by_cases blank : isCollapsible c
      · have after : inRunAfter inRun (c :: s) = inRunAfter true s := by simp [inRunAfter, blank]
        rw [List.cons_append, squeeze_from_blank inRun c _ blank, squeeze_from_blank inRun c _ blank, ih, after]
        cases inRun <;> rfl
      · have solid : isCollapsible c = false := by simpa using blank
        have after : inRunAfter inRun (c :: s) = inRunAfter false s := by simp [inRunAfter, solid]
        rw [List.cons_append, squeeze_from_solid inRun c _ solid, squeeze_from_solid inRun c _ solid, ih, after]
        rfl

theorem squeeze_from_head (s : Chars) : (squeezeFrom true s).head? ≠ some ' ' := by
  induction s with
  | nil => simp [squeezeFrom]
  | cons c s ih =>
      by_cases blank : isCollapsible c
      · rwa [squeeze_from_blank true c s blank, if_pos rfl]
      · have solid : isCollapsible c = false := by simpa using blank
        rw [squeeze_from_solid true c s solid]
        simpa using solid_no_space c solid

theorem drop_space_other (s : Chars) (other : s.head? ≠ some ' ') : dropSpace s = s := by
  unfold dropSpace
  split
  · exact absurd rfl other
  · rfl

theorem trim_start_other (s : Chars) (other : s.head? ≠ some ' ') : Text.trimStart (· == ' ') s = s := by
  cases s with
  | nil => rfl
  | cons c s => rw [Text.trimStart, List.dropWhile_cons_of_neg (by simpa using other)]

theorem squeeze_from_drop (s : Chars) : dropSpace (squeezeFrom false s) = squeezeFrom true s := by
  cases s with
  | nil => rfl
  | cons c s =>
      by_cases blank : isCollapsible c
      · rw [squeeze_from_blank false c s blank, squeeze_from_blank true c s blank]
        rfl
      · have solid : isCollapsible c = false := by simpa using blank
        rw [squeeze_from_solid false c s solid, squeeze_from_solid true c s solid]
        exact drop_space_other _ (by simpa using solid_no_space c solid)

theorem squeeze_from_trim (s : Chars) : Text.trimStart (· == ' ') (squeezeFrom false s) = squeezeFrom true s := by
  have other := squeeze_from_head s
  rw [← squeeze_from_drop] at other ⊢
  cases squeezed : squeezeFrom false s with
  | nil => rfl
  | cons c t =>
      rw [squeezed] at other
      by_cases space : c = ' '
      · subst space
        exact trim_start_other t other
      · have unchanged : dropSpace (c :: t) = c :: t := drop_space_other _ (by simpa using space)
        rw [unchanged]
        exact trim_start_other _ (by simpa using space)

theorem squeeze_from_empty (inRun : Bool) (s : Chars) (empty : squeezeFrom inRun s = []) :
    inRunAfter inRun s = inRun := by
  induction s with
  | nil => rfl
  | cons c s ih =>
      by_cases blank : isCollapsible c
      · rw [squeeze_from_blank inRun c s blank] at empty
        cases inRun with
        | false => cases empty
        | true => simpa [inRunAfter, blank] using ih empty
      · rw [squeeze_from_solid inRun c s (by simpa using blank)] at empty
        cases empty

theorem squeeze_from_last (inRun : Bool) (s : Chars) (c : Char)
    (last : (squeezeFrom inRun s).getLast? = some c) : inRunAfter inRun s = (c == ' ') := by
  induction s generalizing inRun with
  | nil => cases last
  | cons d s ih =>
      have step : inRunAfter inRun (d :: s) = inRunAfter (isCollapsible d) s := rfl
      -- What stands before the rest of the text is its last character if nothing is left of the rest.
      have ends (e : Char) (space : isCollapsible d = (e == ' '))
          (here : (e :: squeezeFrom (isCollapsible d) s).getLast? = some c) :
          inRunAfter (isCollapsible d) s = (c == ' ') := by
        cases rest : squeezeFrom (isCollapsible d) s with
        | nil =>
            rw [rest] at here
            obtain rfl : e = c := by simpa using here
            rw [squeeze_from_empty _ s rest, space]
        | cons f t =>
            rw [rest, List.getLast?_cons_cons, ← rest] at here
            exact ih _ here
      rw [step]
      by_cases blank : isCollapsible d
      · rw [squeeze_from_blank inRun d s blank] at last
        cases inRun with
        | false =>
            refine ends ' ' (by simp [blank]) ?_
            rwa [blank]
        | true =>
            refine ih _ ?_
            rwa [blank]
      · have solid : isCollapsible d = false := by simpa using blank
        rw [squeeze_from_solid inRun d s solid] at last
        refine ends d ?_ ?_
        · simp [solid, solid_no_space d solid]
        · rwa [solid]

theorem tight_tail (c : Char) (s : Chars) (tight : Tight (c :: s)) : Tight s := by
  intro before after same
  exact tight (c :: before) after (by rw [same, List.cons_append])

theorem tight_cons (c : Char) (s : Chars) (tight : Tight s) (apart : c = ' ' → s.head? ≠ some ' ') :
    Tight (c :: s) := by
  intro before after same
  cases before with
  | nil =>
      obtain ⟨rfl, rfl⟩ := List.cons.inj same
      exact apart rfl rfl
  | cons d before =>
      obtain ⟨-, rest⟩ := List.cons.inj same
      exact tight before after rest

theorem squeeze_from_tight (inRun : Bool) (s : Chars) : Tight (squeezeFrom inRun s) := by
  induction s generalizing inRun with
  | nil =>
      intro before after same
      simp [squeezeFrom] at same
  | cons c s ih =>
      by_cases blank : isCollapsible c
      · rw [squeeze_from_blank inRun c s blank]
        cases inRun with
        | false => exact tight_cons ' ' _ (ih true) (fun _ => squeeze_from_head s)
        | true => exact ih true
      · have solid : isCollapsible c = false := by simpa using blank
        rw [squeeze_from_solid inRun c s solid]
        exact tight_cons c _ (ih false) (fun space => absurd space (solid_no_space c solid))

theorem backward_text (s : Chars) (rest : List Event) :
    ∃ t, (backward (.text s :: rest)).2 = t :: (backward rest).2 ∧ (t = s ∨ t = Text.trimEnd (· == ' ') s) := by
  by_cases empty : s.isEmpty
  · exact ⟨s, by simp [backward, empty], .inl rfl⟩
  · by_cases border : (backward rest).1
    · exact ⟨Text.trimEnd (· == ' ') s, by simp [backward, empty, border], .inr rfl⟩
    · exact ⟨s, by simp [backward, empty, border], .inl rfl⟩

end Downmark.Whitespace
