import Downmark.Proofs.Markup
/-!
Escaping writes a text character by character, each with or without a backslash in front of it. What
gets a backslash is decided by the character, by what follows it, and at the start of a line by the
digits before it. Main statement: whatever is already on its line, an escaped text is spelled so.
-/

set_option autoImplicit false

namespace Downmark.Escape

def lineSpecial : Chars := ['#', '-', '+', '>', '=', '.']

def numbering (start : Bool) (c : Char) : Bool := c == '\n' || (start && Text.isDecimal c)

-- The flag tells that nothing but digits stands between the start of the line and here.
inductive Spelled (special : Chars) : Bool → Chars → Chars → Prop where
  | nil (start : Bool) : Spelled special start [] []
  | plain (start : Bool) (c : Char) (s w : Chars) (common : c ∉ special) (closed : opensMarkup c w = false)
      (rest : Spelled special (numbering start c) s w) : Spelled special start (c :: s) (c :: w)
  | slashed (start : Bool) (c : Char) (s w : Chars)
      (reason : c ∈ special ∨ opensMarkup c w = true ∨ start = true ∧ c ∈ lineSpecial)
      (rest : Spelled special false s w) : Spelled special start (c :: s) ('\\' :: c :: w)

theorem spelled_weaken (special : Chars) (a b : Bool) (s w : Chars) (spelled : Spelled special a s w)
    (weaker : a = true → b = true) : Spelled special b s w := by
  induction spelled generalizing b with
  | nil => exact .nil b
  | plain start c s w common closed _ ih =>
      refine .plain b c s w common closed (ih _ ?_)
      simp only [numbering, Bool.or_eq_true, Bool.and_eq_true]
      exact Or.imp_right (And.imp_left weaker)
  | slashed start c s w reason rest =>
      exact .slashed b c s w (reason.imp_right (Or.imp_right (And.imp_left weaker))) rest

theorem spelled_free (special : Chars) (start : Bool) (s w : Chars) (spelled : Spelled special start s w)
    (free : '\n' ∉ s) : '\n' ∉ w := by
  induction spelled with
  | nil => exact free
  | plain start c s w _ _ _ ih =>
      simp only [List.mem_cons, not_or] at free ⊢
      exact ⟨free.1, ih free.2⟩
  | slashed start c s w _ _ ih =>
      simp only [List.mem_cons, not_or] at free ⊢
      exact ⟨by decide, free.1, ih free.2⟩

theorem spelled_common (special : Chars) (start : Bool) (s : Chars) (c : Char) (w : Chars)
    (spelled : Spelled special start s (c :: w)) (common : c ≠ '\\') :
    ∃ t, s = c :: t ∧ c ∉ special ∧ Spelled special (numbering start c) t w := by
  cases spelled with
  | plain _ _ t _ plain _ rest => exact ⟨t, rfl, plain, rest⟩
  | slashed => exact absurd rfl common

theorem spelled_mem (special : Chars) (start : Bool) (s w : Chars) (spelled : Spelled special start s w) (c : Char)
    (member : c ∈ w) : c ∈ s ∨ c = '\\' := by
  induction spelled with
  | nil => cases member
  | plain start d s w _ _ _ ih =>
      rcases List.mem_cons.mp member with rfl | later
      · exact .inl List.mem_cons_self
      · exact (ih later).imp_left (List.mem_cons_of_mem d)
  | slashed start d s w _ _ ih =>
      rcases List.mem_cons.mp member with rfl | next
      · exact .inr rfl
      · rcases List.mem_cons.mp next with rfl | later
        · exact .inl List.mem_cons_self
        · exact (ih later).imp_left (List.mem_cons_of_mem d)

theorem spelled_last (special : Chars) (start : Bool) (s w : Chars) (spelled : Spelled special start s w) :
    w.getLast? = s.getLast? := by
  induction spelled with
  | nil => rfl
  | plain start c s w _ _ _ ih => simp [List.getLast?_cons, ih]
  | slashed start c s w _ _ ih => simp [List.getLast?_cons, ih]

theorem gap_plain (c : Char) (w : Chars) (gap : Text.isGap c) :
    c ∉ inlineSpecial ∧ opensMarkup c w = false ∧ c ∉ lineSpecial := by
  rcases (by simpa [Text.isGap] using gap : c = ' ' ∨ c = '\t') with rfl | rfl <;>
    exact ⟨by decide, rfl, by decide⟩

theorem blank_plain (c : Char) (w : Chars) (blank : Text.isBlank c = true) :
    c ∉ allSpecial ∧ c ∉ inlineSpecial ∧ opensMarkup c w = false ∧ c ∉ lineSpecial := by
  have other (d : Char) (solid : Text.isBlank d = false) : c ≠ d := by
    rintro rfl
    rw [blank] at solid
    cases solid
  have away (listed : Chars) (solid : (listed.all fun d => !Text.isBlank d) = true) : c ∉ listed := fun member => by
    have one := List.all_eq_true.mp solid c member
    rw [blank] at one
    cases one
  refine ⟨away _ rfl, away _ rfl, ?_, away _ rfl⟩
  simp [opensMarkup, other '<' rfl, other '&' rfl]

theorem spelled_gap (start : Bool) (c : Char) (s w : Chars) (spelled : Spelled inlineSpecial start (c :: s) w)
    (gap : Text.isGap c) : w.head? = some c := by
  cases spelled with
  | plain => rfl
  | slashed _ _ _ w reason _ =>
      obtain ⟨common, closed, other⟩ := gap_plain c w gap
      rcases reason with listed | opens | ⟨-, listed⟩
      · exact absurd listed common
      · rw [closed] at opens
        cases opens
      · exact absurd listed other

theorem spelled_head (start : Bool) (s w : Chars) (spelled : Spelled inlineSpecial start s w) :
    w.head?.any Text.isGap = s.head?.any Text.isGap := by
  cases s with
  | nil =>
      cases spelled
      rfl
  | cons c s =>
      by_cases gap : Text.isGap c
      · simp [spelled_gap start c s w spelled gap]
      · cases spelled with
        | plain => rfl
        | slashed =>
            have solid : Text.isGap c = false := by simpa using gap
            simp only [List.head?_cons, Option.any_some, solid]
            rfl

theorem spelled_html (special line : Chars) (apart : '<' ∉ special ∧ '&' ∉ special) (free : '\n' ∉ line) :
    Spelled special false line (escapeHtml (Text.backslash special line)) := by
  induction line with
  | nil => exact .nil false
  | cons c s ih =>
      have parts : c ≠ '\n' ∧ '\n' ∉ s := by simpa [eq_comm] using free
      have rest := ih parts.2
      by_cases listed : c ∈ special
      · have written : Text.backslash special (c :: s) = '\\' :: c :: Text.backslash special s := by
          simp [Text.backslash, listed]
        have closed : opensMarkup c (Text.backslash special s) = false := by
          cases opens : opensMarkup c (Text.backslash special s) with
          | false => rfl
          | true =>
              rcases opens_markup_char c _ opens with same | same
              · exact absurd (same ▸ listed) apart.1
              · exact absurd (same ▸ listed) apart.2
        rw [written, escape_html_cons, escape_html_cons]
        simp only [closed, Bool.false_eq_true, if_false]
        exact .slashed false c s _ (.inl listed) rest
      · have written : Text.backslash special (c :: s) = c :: Text.backslash special s := by
          simp [Text.backslash, listed]
        have same := opens_markup_telling c _ _ (telling_escape_html (Text.backslash special s))
        rw [written, escape_html_cons]
        by_cases opens : opensMarkup c (Text.backslash special s)
        · rw [if_pos opens]
          exact .slashed false c s _ (.inr (.inl (same.trans opens))) rest
        · rw [if_neg opens]
          have after : numbering false c = false := by simpa [numbering] using parts.1
          exact .plain false c s _ listed (by simpa [same] using opens) (by rwa [after])

-- What may become of a line: nothing, a backslash in front of it, or one behind its number.
inductive Guards (w : Chars) : Chars → Prop where
  | none : Guards w w
  | first (c : Char) (rest : Chars) (line : w = c :: rest) (listed : c ∈ lineSpecial) :
      Guards w ('\\' :: c :: rest)
  | period (digits rest : Chars) (line : w = digits ++ '.' :: rest) (some : digits ≠ [])
      (all : ∀ d ∈ digits, Text.isDecimal d) : Guards w (digits ++ '\\' :: '.' :: rest)

theorem numbered_line_iff (line digits rest : Chars) :
    numberedLine? line = some (digits, rest) ↔
      line = digits ++ '.' :: rest ∧ digits ≠ [] ∧ ∀ d ∈ digits, Text.isDecimal d := by
  constructor
  · intro found
    have whole := List.takeWhile_append_dropWhile (p := Text.isDecimal) (l := line)
    unfold numberedLine? at found
    split at found
    · cases found
    · rename_i tail nonempty
      cases found
      refine ⟨?_, nonempty, ?_⟩
      · rw [tail] at whole
        exact whole.symm
      · intro d member
        exact List.all_eq_true.mp List.all_takeWhile d member
    · cases found
  · rintro ⟨rfl, some, all⟩
    have period : Text.isDecimal '.' = false := by decide
    have head : (digits ++ '.' :: rest).takeWhile Text.isDecimal = digits := by
      rw [List.takeWhile_append_of_pos all, List.takeWhile_cons_of_neg (by simp [period]), List.append_nil]
    have tail : (digits ++ '.' :: rest).dropWhile Text.isDecimal = '.' :: rest := by
      rw [List.dropWhile_append_of_pos all, List.dropWhile_cons_of_neg (by simp [period])]
    unfold numberedLine?
    rw [head, tail]
    cases digits with
    | nil => exact absurd rfl some
    | cons d ds => rfl

theorem escape_line_guards (w : Chars) : Guards w (escapeLine w) := by
  unfold escapeLine
  split
  · split
    · exact .first '#' _ rfl (by decide)
    · exact .none
  · exact .first '-' _ rfl (by decide)
  · split
    · exact .first '+' _ rfl (by decide)
    · exact .none
  · exact .first '>' _ rfl (by decide)
  · exact .first '=' _ rfl (by decide)
  · split
    · rename_i digits rest found
      obtain ⟨line, some, all⟩ := (numbered_line_iff _ digits rest).mp found
      split
      · exact .period digits rest line some all
      · exact .none
    · exact .none

theorem escape_number_guards (w : Chars) : Guards w (escapeNumber w) := by
  unfold escapeNumber
  split
  · rename_i digits rest found
    obtain ⟨line, some, all⟩ := (numbered_line_iff _ digits rest).mp found
    exact .period digits rest line some all
  · exact .none

theorem decimal_closed (d : Char) (s : Chars) (decimal : Text.isDecimal d) : opensMarkup d s = false := by
  cases opens : opensMarkup d s with
  | false => rfl
  | true =>
      rcases opens_markup_char d s opens with same | same <;> rw [same] at decimal <;>
        exact absurd decimal (by decide)

theorem decimal_common (d : Char) (decimal : Text.isDecimal d) : d ≠ '\\' ∧ d ≠ '\n' := by
  constructor <;> intro same <;> rw [same] at decimal <;> exact absurd decimal (by decide)

-- The digits were written as they are, so the period is the first character that a backslash can precede.
theorem spelled_period (special : Chars) (digits rest s : Chars) (all : ∀ d ∈ digits, Text.isDecimal d)
    (spelled : Spelled special false s (digits ++ '.' :: rest)) :
    Spelled special true s (digits ++ '\\' :: '.' :: rest) := by
  induction digits generalizing s with
  | nil =>
      obtain ⟨t, rfl, -, tail⟩ := spelled_common special false s '.' rest spelled (by decide)
      exact .slashed true '.' t rest (.inr (.inr ⟨rfl, by decide⟩)) tail
  | cons d ds ih =>
      have first := all d (List.mem_cons_self)
      obtain ⟨slash, newline⟩ := decimal_common d first
      obtain ⟨t, rfl, plain, tail⟩ := spelled_common special false s d _ spelled slash
      have before : numbering false d = false := by simpa [numbering] using newline
      have after : numbering true d = true := by simp [numbering, first]
      rw [before] at tail
      refine .plain true d t _ plain (decimal_closed d _ first) ?_
      rw [after]
      exact ih t (fun x member => all x (List.mem_cons_of_mem d member)) tail

theorem line_special_common (c : Char) (listed : c ∈ lineSpecial) : c ≠ '\\' ∧ c ≠ '\n' := by
  constructor <;> intro same <;> rw [same] at listed <;> exact absurd listed (by decide)

theorem spelled_guarded (special s w v : Chars) (spelled : Spelled special false s w) (guarded : Guards w v) :
    Spelled special true s v := by
  cases guarded with
  | none => exact spelled_weaken special false true s w spelled (by simp)
  | first c rest line listed =>
      subst line
      obtain ⟨slash, newline⟩ := line_special_common c listed
      obtain ⟨t, rfl, -, tail⟩ := spelled_common special false s c rest spelled slash
      have after : numbering false c = false := by simpa [numbering] using newline
      exact .slashed true c t rest (.inr (.inr ⟨rfl, listed⟩)) (by rwa [after] at tail)
  | period digits rest line _ all =>
      subst line
      exact spelled_period special digits rest s all spelled

theorem telling_newline (s rest : Chars) : telling (s ++ '\n' :: rest) = telling s := by
  have same := telling_append s ('\n' :: rest) [] (telling_stop '\n' rest (by decide))
  rwa [List.append_nil] at same

theorem escape_html_newline (line rest : Chars) :
    escapeHtml (line ++ '\n' :: rest) = escapeHtml line ++ '\n' :: escapeHtml rest := by
  induction line with
  | nil => exact escape_html_cons '\n' rest
  | cons c s ih =>
      rw [List.cons_append, escape_html_cons, escape_html_cons, ih,
        opens_markup_telling c _ _ (telling_newline s rest)]
      split <;> rfl

-- A newline is not telling: what a line opens, it opens without the lines after it.
theorem spelled_newline (special : Chars) (start : Bool) (line w rest v : Chars) (common : '\n' ∉ special)
    (first : Spelled special start line w) (later : Spelled special true rest v) :
    Spelled special start (line ++ '\n' :: rest) (w ++ '\n' :: v) := by
  induction first with
  | nil start => exact .plain start '\n' rest v common rfl later
  | plain start c s w plain closed _ ih =>
      refine .plain start c (s ++ '\n' :: rest) (w ++ '\n' :: v) plain ?_ ih
      rw [opens_markup_telling c _ _ (telling_newline w v), closed]
  | slashed start c s w reason _ ih =>
      refine .slashed start c (s ++ '\n' :: rest) (w ++ '\n' :: v) ?_ ih
      rwa [opens_markup_telling c _ _ (telling_newline w v)]

theorem spelled_lines (special : Chars) (f : Chars → Chars) (apart : '<' ∉ special ∧ '&' ∉ special)
    (common : '\n' ∉ special) (guards : ∀ w, Guards w (f w)) (s : Chars) :
    Spelled special true s (onLines f (escapeHtml (Text.backslash special s))) := by
  have single (line : Chars) (free : '\n' ∉ line) :
      '\n' ∉ escapeHtml (Text.backslash special line) ∧
        Spelled special true line (f (escapeHtml (Text.backslash special line))) := by
    have spelled := spelled_html special line apart free
    exact ⟨spelled_free special false line _ spelled free,
      spelled_guarded special line _ _ spelled (guards _)⟩
  induction s using Text.line_induction with
  | last line free =>
      obtain ⟨written, spelled⟩ := single line free
      rwa [on_lines_free f _ written]
  | more line rest free ih =>
      obtain ⟨written, spelled⟩ := single line free
      have split : Text.backslash special (line ++ '\n' :: rest) =
          Text.backslash special line ++ '\n' :: Text.backslash special rest := by
        simp [Text.backslash, common]
      rw [split, escape_html_newline, on_lines_newline f _ _ written]
      exact spelled_newline special true line _ rest _ common spelled ih

theorem marker_end_period (w : Chars) (ends : startsWithMarkerEnd w) : ∃ rest, w = '.' :: rest := by
  unfold startsWithMarkerEnd at ends
  split at ends
  · exact ⟨[], rfl⟩
  · rename_i c rest
    exact ⟨c :: rest, rfl⟩
  · cases ends

theorem spelled_split_marker (special ahead s w : Chars) (spelled : Spelled special true s w) :
    Spelled special true s (escapeSplitMarker ahead w) := by
  unfold escapeSplitMarker
  split
  · rename_i found
    have ends : startsWithMarkerEnd w := ((Bool.and_eq_true _ _).mp found).2
    have period : ∃ rest, w = '.' :: rest := by
      unfold startsWithMarkerEnd at ends
      split at ends
      · exact ⟨[], rfl⟩
      · rename_i c rest
        exact ⟨c :: rest, rfl⟩
      · cases ends
    obtain ⟨rest, rfl⟩ := period
    obtain ⟨t, rfl, -, tail⟩ := spelled_common special true s '.' rest spelled (by decide)
    exact .slashed true '.' t rest (.inr (.inr ⟨rfl, by decide⟩)) tail
  · exact spelled

theorem markdown_spelled (s ahead : Chars) : Spelled inlineSpecial true s (markdown s ahead) :=
  spelled_split_marker inlineSpecial ahead s _
    (spelled_lines inlineSpecial escapeLine (by decide) (by decide) escape_line_guards s)

theorem preformatted_spelled (s ahead : Chars) : Spelled allSpecial true s (preformatted s ahead) :=
  spelled_split_marker allSpecial ahead s _
    (spelled_lines allSpecial escapeNumber (by decide) (by decide) escape_number_guards s)

end Downmark.Escape
