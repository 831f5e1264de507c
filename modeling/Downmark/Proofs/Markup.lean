import Downmark.Proofs.Lines
/-!
What makes an angle bracket or an ampersand markup: the few characters that follow it. Nothing past
the first character that can be part of neither a tag nor a reference is looked at, so escaping more
of a text later on changes no earlier decision. Main statement: both passes over angle brackets and
ampersands are one pass that escapes what opens markup.
-/

set_option autoImplicit false

namespace Downmark.Escape

inductive OpensMarkup : Char → Chars → Prop where
  | tag (c : Char) (rest : Chars)
      (first : Text.isAsciiLetter c ∨ c = '/' ∨ c = '!' ∨ c = '?') : OpensMarkup '<' (c :: rest)
  | decimal (digits rest : Chars) (some : digits ≠ []) (all : ∀ d ∈ digits, Text.isAsciiDigit d) :
      OpensMarkup '&' ('#' :: (digits ++ ';' :: rest))
  | hex (x : Char) (digits rest : Chars) (sign : x = 'x' ∨ x = 'X') (some : digits ≠ [])
      (all : ∀ d ∈ digits, Text.isHexDigit d) : OpensMarkup '&' ('#' :: x :: (digits ++ ';' :: rest))
  | name (word rest : Chars) (some : word ≠ []) (all : ∀ c ∈ word, Text.isWord c) :
      OpensMarkup '&' (word ++ ';' :: rest)

def opensMarkup (c : Char) (rest : Chars) : Bool :=
  (c == '<' && opensTag rest) || (c == '&' && opensReference rest)

def isTelling (c : Char) : Bool :=
  Text.isWord c || c == '#' || c == ';' || c == '/' || c == '!' || c == '?'

-- All that decides what a text makes of an angle bracket or an ampersand before it.
def telling (s : Chars) : Chars := s.takeWhile isTelling

theorem closed_run_iff (p : Char → Bool) (s : Chars) (excluded : p ';' = false) :
    closedRun p s = true ↔ ∃ run rest, run ≠ [] ∧ (∀ c ∈ run, p c) ∧ s = run ++ ';' :: rest := by
  constructor
  · intro closed
    cases s with
    | nil => cases closed
    | cons c s =>
        obtain ⟨first, next⟩ := (Bool.and_eq_true _ _).mp closed
        refine ⟨c :: s.takeWhile p, (s.dropWhile p).tail, by simp, ?_, ?_⟩
        · intro d member
          rcases List.mem_cons.mp member with same | later
          · rwa [same]
          · exact List.all_eq_true.mp List.all_takeWhile d later
        · have ends : s.dropWhile p = ';' :: (s.dropWhile p).tail := by
            cases rest : s.dropWhile p with
            | nil => simp [rest] at next
            | cons d tail => simpa [rest] using next
          rw [List.cons_append, ← ends, List.takeWhile_append_dropWhile]
  · rintro ⟨run, rest, some, all, rfl⟩
    cases run with
    | nil => exact absurd rfl some
    | cons c run =>
        have later : ∀ d ∈ run, p d := fun d member => all d (List.mem_cons_of_mem c member)
        have ends : (run ++ ';' :: rest).dropWhile p = ';' :: rest := by
          rw [List.dropWhile_append_of_pos later, List.dropWhile_cons_of_neg (by simp [excluded])]
        simp [closedRun, all c (List.mem_cons_self), ends]

-- A closing semicolon is telling itself, so a run is closed within what is telling or not at all.
theorem closed_run_telling (p : Char → Bool) (s : Chars) (part : ∀ c, p c → isTelling c) :
    closedRun p (telling s) = closedRun p s := by
  have next (r : Chars) : (((telling r).dropWhile p).head? == some ';') = ((r.dropWhile p).head? == some ';') := by
    induction r with
    | nil => rfl
    | cons c r ih =>
        by_cases inside : p c
        · simpa [telling, part c inside, inside] using ih
        · by_cases told : isTelling c
          · simp [telling, told, inside]
          · have other : c ≠ ';' := by
              intro same
              rw [same] at told
              exact told (by decide)
            simp [telling, told, inside, other]
  cases s with
  | nil => rfl
  | cons c s =>
      by_cases inside : p c
      · have told := part c inside
        have kept : telling (c :: s) = c :: telling s := by simp [telling, told]
        rw [kept, closedRun, closedRun, next]
      · by_cases told : isTelling c <;> simp [telling, told, closedRun, inside]

theorem word_telling (c : Char) (word : Text.isWord c) : isTelling c := by
  simp [isTelling, word]

theorem digit_word (c : Char) (digit : Text.isAsciiDigit c) : Text.isWord c := by
  simp [Text.isWord, digit]

theorem hex_word (c : Char) (digit : Text.isHexDigit c) : Text.isWord c := by
  simp only [Text.isHexDigit, Bool.or_eq_true, Bool.and_eq_true, decide_eq_true_eq] at digit
  have small : 'f' ≤ 'z' := by decide
  have capital : 'F' ≤ 'Z' := by decide
  rcases digit with (plain | lower) | upper
  · exact digit_word c plain
  · have letter : Text.isAsciiLetter c := by
      simp [Text.isAsciiLetter, lower.1, Char.le_trans lower.2 small]
    simp [Text.isWord, letter]
  · have letter : Text.isAsciiLetter c := by
      simp [Text.isAsciiLetter, upper.1, Char.le_trans upper.2 capital]
    simp [Text.isWord, letter]

theorem opens_tag_telling (s : Chars) : opensTag (telling s) = opensTag s := by
  cases s with
  | nil => rfl
  | cons c s =>
      by_cases told : isTelling c
      · simp [telling, told, opensTag]
      · have silent : telling (c :: s) = [] := by simp [telling, told]
        have letter : Text.isAsciiLetter c = false := by
          cases found : Text.isAsciiLetter c with
          | false => rfl
          | true => exact absurd (word_telling c (by simp [Text.isWord, found])) told
        simp only [isTelling, Bool.or_eq_true, not_or, Bool.not_eq_true] at told
        obtain ⟨⟨⟨⟨⟨-, -⟩, -⟩, slash⟩, bang⟩, question⟩ := told
        simp [silent, opensTag, letter, slash, bang, question]

theorem opens_reference_decimal (s : Chars) (lower : s.head? ≠ some 'x') (upper : s.head? ≠ some 'X') :
    opensReference ('#' :: s) = closedRun Text.isAsciiDigit s := by
  cases s with
  | nil => rfl
  | cons c s =>
      simp only [List.head?_cons, ne_eq, Option.some.injEq] at lower upper
      simp [opensReference, lower, upper]

theorem opens_reference_name (s : Chars) (other : s.head? ≠ some '#') :
    opensReference s = closedRun Text.isWord s := by
  cases s with
  | nil => rfl
  | cons c s =>
      simp only [List.head?_cons, ne_eq, Option.some.injEq] at other
      simp [opensReference, other]

theorem telling_cons (c : Char) (s : Chars) (told : isTelling c) : telling (c :: s) = c :: telling s := by
  rw [telling, List.takeWhile_cons_of_pos told, telling]

theorem telling_stop (c : Char) (s : Chars) (silent : isTelling c = false) : telling (c :: s) = [] := by
  rw [telling, List.takeWhile_cons_of_neg (by simp [silent])]

theorem telling_same (c : Char) (s t : Chars) (same : telling s = telling t) :
    telling (c :: s) = telling (c :: t) := by
  by_cases told : isTelling c
  · rw [telling_cons c s told, telling_cons c t told, same]
  · have silent : isTelling c = false := by simpa using told
    rw [telling_stop c s silent, telling_stop c t silent]

theorem telling_append (a s t : Chars) (same : telling s = telling t) : telling (a ++ s) = telling (a ++ t) := by
  induction a with
  | nil => exact same
  | cons c a ih => exact telling_same c _ _ ih

theorem telling_head (s : Chars) (c : Char) (other : s.head? ≠ some c) : (telling s).head? ≠ some c := by
  cases s with
  | nil => exact other
  | cons d s =>
      by_cases told : isTelling d
      · rwa [telling_cons d s told]
      · rw [telling_stop d s (by simpa using told)]
        simp

theorem opens_reference_telling (s : Chars) : opensReference (telling s) = opensReference s := by
  have digits (r : Chars) := closed_run_telling Text.isAsciiDigit r
    (fun c digit => word_telling c (digit_word c digit))
  have hexDigits (r : Chars) := closed_run_telling Text.isHexDigit r
    (fun c digit => word_telling c (hex_word c digit))
  by_cases hash : s.head? = some '#'
  · obtain ⟨r, rfl⟩ := List.head?_eq_some_iff.mp hash
    rw [telling_cons '#' r (by decide)]
    by_cases lower : r.head? = some 'x'
    · obtain ⟨t, rfl⟩ := List.head?_eq_some_iff.mp lower
      rw [telling_cons 'x' t (by decide)]
      exact hexDigits t
    · by_cases upper : r.head? = some 'X'
      · obtain ⟨t, rfl⟩ := List.head?_eq_some_iff.mp upper
        rw [telling_cons 'X' t (by decide)]
        exact hexDigits t
      · rw [opens_reference_decimal r lower upper,
          opens_reference_decimal _ (telling_head r _ lower) (telling_head r _ upper), digits]
  · rw [opens_reference_name s hash, opens_reference_name _ (telling_head s _ hash)]
    exact closed_run_telling Text.isWord s word_telling

theorem opens_markup_telling (c : Char) (s t : Chars) (same : telling s = telling t) :
    opensMarkup c s = opensMarkup c t := by
  rw [opensMarkup, opensMarkup, ← opens_tag_telling s, ← opens_tag_telling t, ← opens_reference_telling s,
    ← opens_reference_telling t, same]

theorem opens_tag_iff (s : Chars) : opensTag s = true ↔ OpensMarkup '<' s := by
  constructor
  · intro opens
    cases s with
    | nil => cases opens
    | cons c rest =>
        refine .tag c rest ?_
        simpa [opensTag, or_assoc] using opens
  · intro opens
    cases opens with
    | tag c rest first => simpa [opensTag, or_assoc] using first

theorem run_head (p : Char → Bool) (run rest : Chars) (c : Char) (some : run ≠ []) (all : ∀ d ∈ run, p d)
    (outside : p c = false) : (run ++ ';' :: rest).head? ≠ Option.some c := by
  cases run with
  | nil => exact absurd rfl some
  | cons d run =>
      intro same
      have first : d = c := by simpa using same
      have inside := all d (List.mem_cons_self)
      rw [first, outside] at inside
      cases inside

theorem opens_reference_iff (s : Chars) : opensReference s = true ↔ OpensMarkup '&' s := by
  constructor
  · intro opens
    by_cases hash : s.head? = some '#'
    · obtain ⟨r, rfl⟩ := List.head?_eq_some_iff.mp hash
      by_cases lower : r.head? = some 'x'
      · obtain ⟨t, rfl⟩ := List.head?_eq_some_iff.mp lower
        obtain ⟨run, rest, some, all, rfl⟩ := (closed_run_iff _ t (by decide)).mp opens
        exact .hex 'x' run rest (.inl rfl) some all
      · by_cases upper : r.head? = some 'X'
        · obtain ⟨t, rfl⟩ := List.head?_eq_some_iff.mp upper
          obtain ⟨run, rest, some, all, rfl⟩ := (closed_run_iff _ t (by decide)).mp opens
          exact .hex 'X' run rest (.inr rfl) some all
        · rw [opens_reference_decimal r lower upper] at opens
          obtain ⟨run, rest, some, all, rfl⟩ := (closed_run_iff _ r (by decide)).mp opens
          exact .decimal run rest some all
    · rw [opens_reference_name s hash] at opens
      obtain ⟨run, rest, some, all, rfl⟩ := (closed_run_iff _ s (by decide)).mp opens
      exact .name run rest some all
  · intro opens
    cases opens with
    | decimal digits rest some all =>
        have other (c : Char) (letter : Text.isAsciiDigit c = false) :
            (digits ++ ';' :: rest).head? ≠ Option.some c :=
          run_head Text.isAsciiDigit digits rest c some all letter
        rw [opens_reference_decimal _ (other 'x' (by decide)) (other 'X' (by decide))]
        exact (closed_run_iff _ _ (by decide)).mpr ⟨digits, rest, some, all, rfl⟩
    | hex x digits rest sign some all =>
        rcases sign with rfl | rfl <;>
          exact (closed_run_iff _ _ (by decide)).mpr ⟨digits, rest, some, all, rfl⟩
    | name word rest some all =>
        rw [opens_reference_name _ (run_head Text.isWord word rest '#' some all (by decide))]
        exact (closed_run_iff _ _ (by decide)).mpr ⟨word, rest, some, all, rfl⟩

theorem opens_markup_iff (c : Char) (s : Chars) : opensMarkup c s = true ↔ OpensMarkup c s := by
  constructor
  · intro opens
    simp only [opensMarkup, Bool.or_eq_true, Bool.and_eq_true, beq_iff_eq] at opens
    rcases opens with ⟨rfl, opens⟩ | ⟨rfl, opens⟩
    · exact (opens_tag_iff s).mp opens
    · exact (opens_reference_iff s).mp opens
  · intro opens
    have known : c = '<' ∨ c = '&' := by cases opens <;> simp
    rcases known with rfl | rfl
    · simpa [opensMarkup] using (opens_tag_iff s).mpr opens
    · simpa [opensMarkup] using (opens_reference_iff s).mpr opens

theorem opens_markup_char (c : Char) (s : Chars) (opens : opensMarkup c s) : c = '<' ∨ c = '&' := by
  simp only [opensMarkup, Bool.or_eq_true, Bool.and_eq_true, beq_iff_eq] at opens
  exact opens.imp And.left And.left

-- What is escaped is not telling itself, and neither is the backslash that is put there.
theorem telling_escape_where (special : Char) (opens : Chars → Bool) (s : Chars)
    (silent : isTelling special = false) : telling (escapeWhere special opens s) = telling s := by
  induction s with
  | nil => rfl
  | cons c s ih =>
      by_cases same : c = special
      · subst same
        rw [telling_stop c s silent]
        by_cases here : opens s
        · simpa [escapeWhere, here] using telling_stop '\\' _ (by decide)
        · simpa [escapeWhere, here] using telling_stop c _ silent
      · have kept : escapeWhere special opens (c :: s) = c :: escapeWhere special opens s := by
          simp [escapeWhere, same]
        rw [kept]
        exact telling_same c _ _ ih

-- The pass over ampersands reads what the pass over angle brackets has written.
theorem escape_html_cons (c : Char) (s : Chars) :
    escapeHtml (c :: s) = if opensMarkup c s then '\\' :: c :: escapeHtml s else c :: escapeHtml s := by
  have later : opensReference (escapeWhere '<' opensTag s) = opensReference s := by
    rw [← opens_reference_telling, telling_escape_where '<' opensTag s (by decide), opens_reference_telling]
  by_cases angle : c = '<'
  · subst angle
    by_cases opens : opensTag s <;> simp [escapeHtml, escapeWhere, opensMarkup, opens]
  · by_cases amp : c = '&'
    · subst amp
      by_cases opens : opensReference s <;> simp [escapeHtml, escapeWhere, opensMarkup, later, opens]
    · simp [escapeHtml, escapeWhere, opensMarkup, angle, amp]

theorem telling_escape_html (s : Chars) : telling (escapeHtml s) = telling s := by
  rw [escapeHtml, telling_escape_where '&' _ _ (by decide), telling_escape_where '<' _ _ (by decide)]

end Downmark.Escape
