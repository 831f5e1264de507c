import Downmark.Proofs.HeadingLines
import Downmark.Proofs.Pipes
import Downmark.Proofs.Scanned
/-!
Backslashes that a reader sees. One that is not shielded escapes the punctuation behind it, or breaks the line if the
next one goes on with text; any other is stray. Main statements: a stray backslash of some blocks is one of a single
block, and a heading has one exactly if a backslash of its content escapes nothing.
-/

set_option autoImplicit false

namespace Downmark.Escape

open Text

-- Whether some backslash that is not shielded stands before what `p` tells of.
def BareSlash (p : Chars → Prop) (s : Chars) : Prop :=
  ∃ before after, s = before ++ '\\' :: after ∧ ¬ Shielded before ∧ p after

/-- A line of text: neither blank nor what a heading is underlined with. -/
def IsContent (line : Chars) : Prop :=
  ¬ (∀ c ∈ trimEnd isBlank line, c = '=') ∧ ¬ ∀ c ∈ trimEnd isBlank line, c = '-'

/-- Whether a line ends right here, and the next one goes on with text. -/
def GoesOn (after : Chars) : Prop := ∃ rest, after = '\n' :: rest ∧ IsContent (firstLine rest)

def EscapesNothing (after : Chars) : Prop := after.head?.any isPunctuation = false

/-- Some backslash escapes nothing and breaks no line. -/
def Stray (s : Chars) : Prop := BareSlash (fun after => EscapesNothing after ∧ ¬ GoesOn after) s

section

variable (p : Chars → Prop)

theorem bare_nil : ¬ BareSlash p [] := by
  rintro ⟨before, after, split, -⟩
  simp at split

theorem bare_plain (c : Char) (s : Chars) (common : c ≠ '\\') : BareSlash p (c :: s) ↔ BareSlash p s := by
  constructor
  · rintro ⟨before, after, split, bare, holds⟩
    cases before with
    | nil => exact absurd (List.cons.inj split).1 common
    | cons d before =>
        obtain ⟨rfl, rest⟩ := List.cons.inj split
        exact ⟨before, after, rest, by rwa [shielded_past before c common] at bare, holds⟩
  · rintro ⟨before, after, rfl, bare, holds⟩
    exact ⟨c :: before, after, rfl, by rwa [shielded_past before c common], holds⟩

theorem bare_last : BareSlash p ['\\'] ↔ p [] := by
  constructor
  · rintro ⟨before, after, split, -, holds⟩
    cases before with
    | nil => rwa [← (List.cons.inj split).2] at holds
    | cons d before => simp at split
  · exact fun holds => ⟨[], [], rfl, shielded_nil, holds⟩

theorem bare_pair (c : Char) (s : Chars) : BareSlash p ('\\' :: c :: s) ↔ p (c :: s) ∨ BareSlash p s := by
  constructor
  · rintro ⟨before, after, split, bare, holds⟩
    match before with
    | [] =>
        obtain rfl := (List.cons.inj split).2
        exact .inl holds
    | [d] =>
        obtain ⟨rfl, -⟩ := List.cons.inj split
        exact absurd ((shielded_last [] '\\').mpr ⟨rfl, shielded_nil⟩) bare
    | d :: e :: before =>
        obtain ⟨rfl, next⟩ := List.cons.inj split
        obtain ⟨rfl, rest⟩ := List.cons.inj next
        exact .inr ⟨before, after, rest, by rwa [shielded_pair before c] at bare, holds⟩
  · rintro (here | ⟨before, after, rfl, bare, holds⟩)
    · exact ⟨[], c :: s, rfl, shielded_nil, here⟩
    · exact ⟨'\\' :: c :: before, after, rfl, by rwa [shielded_pair before c], holds⟩

theorem bare_behind (front s : Chars) (free : '\\' ∉ front) : BareSlash p (front ++ s) ↔ BareSlash p s := by
  induction front with
  | nil => rfl
  | cons c front ih =>
      rw [List.mem_cons, not_or] at free
      rw [List.cons_append, bare_plain p c _ (Ne.symm free.1), ih free.2]

theorem bare_free (s : Chars) (free : '\\' ∉ s) : ¬ BareSlash p s := by
  have all := bare_behind p s [] free
  rw [List.append_nil] at all
  exact fun bare => bare_nil p (all.mp bare)

-- Nothing reaches over a character that tells no more than the end of the text.
theorem bare_append (a b : Chars) (c : Char) (common : c ≠ '\\') (same : ∀ x, p (x ++ c :: b) ↔ p x) :
    BareSlash p (a ++ c :: b) ↔ BareSlash p a ∨ BareSlash p b := by
  induction a using slash_induction with
  | nil => simp [bare_nil, bare_plain p c b common]
  | plain d a other ih => rw [List.cons_append, bare_plain p d _ other, bare_plain p d _ other, ih]
  | last =>
      rw [List.cons_append, List.nil_append, bare_pair, bare_last]
      exact or_congr_left (same [])
  | slashed d a ih _ =>
      have here := same (d :: a)
      rw [List.cons_append] at here
      rw [List.cons_append, List.cons_append, bare_pair, bare_pair, ih, here, or_assoc]

end

theorem punctuation_solid (c : Char) (blank : isBlank c = true) : isPunctuation c = false := by
  by_contra mark
  have range := punctuation_range c (by simpa using mark)
  simp only [isBlank, Bool.or_eq_true, Bool.and_eq_true, decide_eq_true_iff, beq_iff_eq] at blank
  omega

theorem nothing_escaped (x b : Chars) (c : Char) (blank : isBlank c = true) :
    EscapesNothing (x ++ c :: b) ↔ EscapesNothing x := by
  cases x with
  | nil => simp [EscapesNothing, punctuation_solid c blank]
  | cons d x => rfl

theorem blank_no_content (line : Chars) (blank : ∀ c ∈ line, isBlank c = true) : ¬ IsContent line := by
  rintro ⟨other, -⟩
  rw [trim_end_all isBlank line blank] at other
  exact other nofun

theorem content_behind (line after : Chars) (blank : ∀ c ∈ after, isBlank c = true) :
    IsContent (line ++ after) ↔ IsContent line := by
  rw [IsContent, IsContent, trim_end_append, trim_end_all isBlank after blank, if_pos List.isEmpty_nil]

theorem goes_on_newline (rest : Chars) : GoesOn ('\n' :: rest) ↔ IsContent (firstLine rest) := by simp [GoesOn]

theorem first_line_found (s t : Chars) (inside : '\n' ∈ s) : firstLine (s ++ t) = firstLine s := by
  induction s using line_induction with
  | last line free => exact absurd inside free
  | more line rest free _ =>
      rw [List.append_assoc, first_line_append line _ free, first_line_append line _ free]
      rfl

theorem first_line_broken (s t : Chars) : firstLine (s ++ '\n' :: t) = firstLine s := by
  by_cases inside : '\n' ∈ s
  · exact first_line_found s _ inside
  · rw [first_line_append s _ inside, first_line_free s inside]
    exact List.append_nil s

theorem goes_on_broken (x b : Chars) (nothing : ¬ IsContent (firstLine b)) : GoesOn (x ++ '\n' :: b) ↔ GoesOn x := by
  cases x with
  | nil => exact iff_of_false (fun more => nothing ((goes_on_newline b).mp more)) (by simp [GoesOn])
  | cons d x =>
      by_cases newline : d = '\n'
      · rw [newline, List.cons_append, goes_on_newline, goes_on_newline, first_line_broken]
      · simp [GoesOn, newline]

theorem goes_on_blank (x after : Chars) (blank : ∀ c ∈ after, isBlank c = true) : GoesOn (x ++ after) ↔ GoesOn x := by
  have line (s : Chars) (all : ∀ c ∈ s, isBlank c = true) : ∀ c ∈ firstLine s, isBlank c = true :=
    fun c member => all c ((List.takeWhile_sublist _).mem member)
  have none (s : Chars) (all : ∀ c ∈ s, isBlank c = true) : ¬ GoesOn s := by
    rintro ⟨rest, rfl, content⟩
    exact blank_no_content _ (line rest (List.forall_mem_cons.mp all).2) content
  cases x with
  | nil => exact iff_of_false (none after blank) (none [] nofun)
  | cons d x =>
      by_cases newline : d = '\n'
      · rw [newline, List.cons_append, goes_on_newline, goes_on_newline]
        by_cases inside : '\n' ∈ x
        · rw [first_line_found x after inside]
        · rw [first_line_append x after inside, first_line_free x inside, content_behind x _ (line after blank)]
      · simp [GoesOn, newline]

-- A backslash at the end of a text is as good as one before a line without text.
theorem stray_lines (a b : Chars) (nothing : ¬ IsContent (firstLine b)) :
    Stray (a ++ '\n' :: b) ↔ Stray a ∨ Stray b :=
  bare_append _ a b '\n' (by decide) fun x => by rw [nothing_escaped x b '\n' rfl, goes_on_broken x b nothing]

theorem stray_end (s after : Chars) (blank : ∀ c ∈ after, isBlank c = true) : Stray (s ++ after) ↔ Stray s := by
  cases after with
  | nil => rw [List.append_nil]
  | cons c after =>
      have here := blank c List.mem_cons_self
      have other : c ≠ '\\' := by
        rintro rfl
        exact absurd here (by decide)
      have free : '\\' ∉ after := fun member => absurd (blank '\\' (List.mem_cons_of_mem c member)) (by decide)
      have same := bare_append (fun after => EscapesNothing after ∧ ¬ GoesOn after) s after c other fun x => by
        rw [nothing_escaped x after c here, goes_on_blank x _ blank]
      rw [Stray, same, or_iff_left (bare_free _ after free)]
      rfl

theorem stray_trim_end (p : Char → Bool) (s : Chars) (blank : ∀ c, p c = true → isBlank c = true) :
    Stray (trimEnd p s) ↔ Stray s := by
  obtain ⟨run, whole, all⟩ := trim_end_run p s
  conv => rhs; rw [whole]
  exact (stray_end _ run fun c member => blank c (all c member)).symm

theorem stray_trim_start (p : Char → Bool) (s : Chars) (other : p '\\' = false) : Stray (trimStart p s) ↔ Stray s := by
  obtain ⟨run, whole, all⟩ := trim_start_run p s
  conv => rhs; rw [whole]
  refine (bare_behind _ run _ fun member => ?_).symm
  have inside := all '\\' member
  rw [other] at inside
  cases inside

theorem stray_join (a b : Chars) (apart : StartsApart b) : Stray (join a b) ↔ Stray a ∨ Stray b := by
  obtain ⟨u, rfl⟩ := apart
  have newline (c : Char) (same : isNewline c = true) : isBlank c = true := by
    rw [beq_iff_eq.mp same]
    rfl
  have nothing : ¬ IsContent (firstLine ('\n' :: trimStart isNewline u)) := blank_no_content _ nofun
  have behind (s : Chars) : Stray ('\n' :: s) ↔ Stray s := bare_plain _ '\n' s (by decide)
  rw [join_apart, stray_lines _ _ nothing, behind, behind, behind, stray_trim_end isNewline a newline,
    stray_trim_start isNewline u rfl]

theorem stray_apart (s : Chars) : Stray (Block.apart s) ↔ Stray s := by
  have front : Stray (Block.apart s) ↔ Stray (s ++ ['\n', '\n']) := bare_behind _ ['\n', '\n'] _ (by decide)
  rw [front, stray_end s _ (List.all_eq_true.mp (show isBlankText ['\n', '\n'] = true from rfl))]

theorem stray_trimmed (s : Chars) : Stray (Render.trimmed s) ↔ Stray s := by
  rw [Render.trimmed, stray_trim_end isBlank _ fun _ => id, stray_trim_start Render.isLineStart s rfl]

theorem loose_blank (a b : Chars) (c : Char) (blank : isBlank c = true) :
    BareSlash EscapesNothing (a ++ c :: b) ↔ BareSlash EscapesNothing a ∨ BareSlash EscapesNothing b := by
  refine bare_append _ a b c ?_ fun x => nothing_escaped x b c blank
  rintro rfl
  exact absurd blank (by decide)

theorem loose_folded (s : Chars) : BareSlash EscapesNothing (oneSpaced s) ↔ BareSlash EscapesNothing s := by
  induction s using word_induction with
  | last w solid => rw [one_spaced_solid w solid]
  | more w c rest solid blank ih =>
      rw [one_spaced_blank w rest c solid blank, loose_blank w rest c blank, ← ih]
      by_cases last : words rest = []
      · have gone : oneSpaced rest = [] := by rw [oneSpaced, last, List.intercalate_nil]
        simp [last, gone, bare_nil]
      · by_cases first : w = []
        · simp [first, bare_nil]
        · simpa [last, first] using loose_blank w (oneSpaced rest) ' ' rfl

theorem stray_line (s : Chars) (free : '\n' ∉ s) : Stray s ↔ BareSlash EscapesNothing s := by
  constructor
  · rintro ⟨before, after, split, bare, nothing, -⟩
    exact ⟨before, after, split, bare, nothing⟩
  · rintro ⟨before, after, rfl, bare, nothing⟩
    refine ⟨before, after, rfl, bare, nothing, ?_⟩
    rintro ⟨rest, rfl, -⟩
    simp at free

theorem underline_nothing (n : Nat) (c : Char) (sign : c = '=' ∨ c = '-') :
    ¬ IsContent (firstLine (List.replicate n c)) := by
  have inside : ∀ d ∈ trimEnd isBlank (firstLine (List.replicate n c)), d = c := fun d member => by
    obtain ⟨run, whole, -⟩ := trim_end_run isBlank (firstLine (List.replicate n c))
    have listed : d ∈ firstLine (List.replicate n c) := whole ▸ List.mem_append_left run member
    exact List.eq_of_mem_replicate ((List.takeWhile_sublist _).mem listed)
  rintro ⟨first, second⟩
  rcases sign with rfl | rfl
  · exact first inside
  · exact second inside

theorem run_unslashed (n : Nat) (c : Char) (other : c ≠ '\\') : '\\' ∉ List.replicate n c := fun member =>
  other (List.eq_of_mem_replicate member).symm

-- No line of a heading goes on, so all that is folded into it is stray.
theorem stray_heading (style : HeadingStyle) (level : Nat) (content : Chars) :
    Stray (Block.headingText style level content) ↔ BareSlash EscapesNothing content := by
  have line := stray_line (oneSpaced content) (Heading.folded_free content)
  rw [loose_folded] at line
  unfold Block.headingText
  dsimp only
  split
  · have sign : (if level == 1 then '=' else '-') = '=' ∨ (if level == 1 then '=' else '-') = '-' := by
      split
      · exact .inl rfl
      · exact .inr rfl
    generalize (if level == 1 then '=' else '-') = c at sign
    have other : c ≠ '\\' := by rcases sign with rfl | rfl <;> decide
    have plain : ¬ Stray (List.replicate (displayWidth (oneSpaced content)) c) :=
      bare_free _ _ (run_unslashed _ c other)
    rw [stray_lines _ _ (underline_nothing _ c sign), or_iff_left plain, line]
  · have front : Stray (List.replicate level '#' ++ ' ' :: oneSpaced content) ↔ Stray (oneSpaced content) :=
      (bare_behind _ _ _ (run_unslashed level '#' (by decide))).trans (bare_plain _ ' ' _ (by decide))
    rw [front, line]

end Downmark.Escape
