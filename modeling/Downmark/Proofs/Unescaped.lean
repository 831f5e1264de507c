import Downmark.Proofs.Spelled
/-!
Reading an escaped text back. A backslash before ASCII punctuation is dropped, and what it stands
before is kept. Main statement: this gives back every text, escaped in either way and after anything.
-/

set_option autoImplicit false

namespace Downmark.Escape

def isPunctuation (c : Char) : Bool :=
  ('!' ≤ c && c ≤ '/') || (':' ≤ c && c ≤ '@') || ('[' ≤ c && c ≤ '`') || ('\x7b' ≤ c && c ≤ '~')

theorem punctuation_range (c : Char) (punctuation : isPunctuation c) : 33 ≤ c.toNat ∧ c.toNat ≤ 126 := by
  simp only [isPunctuation, Bool.or_eq_true, Bool.and_eq_true, decide_eq_true_iff, Char.le_def,
    UInt32.le_iff_toNat_le] at punctuation
  change (((33 ≤ c.toNat ∧ c.toNat ≤ 47) ∨ 58 ≤ c.toNat ∧ c.toNat ≤ 64) ∨ 91 ≤ c.toNat ∧ c.toNat ≤ 96) ∨
    123 ≤ c.toNat ∧ c.toNat ≤ 126 at punctuation
  omega

def unescape : Chars → Chars
  | '\\' :: c :: s => if isPunctuation c then c :: unescape s else '\\' :: unescape (c :: s)
  | c :: s => c :: unescape s
  | [] => []

theorem unescape_plain (c : Char) (s : Chars) (plain : c ≠ '\\') : unescape (c :: s) = c :: unescape s := by
  rw [unescape]
  rintro d t rfl
  exact absurd rfl plain

theorem unescape_slashed (c : Char) (s : Chars) (punctuation : isPunctuation c) :
    unescape ('\\' :: c :: s) = c :: unescape s := by
  rw [unescape, if_pos punctuation]

theorem opens_markup_punctuation (c : Char) (s : Chars) (opens : opensMarkup c s) : isPunctuation c := by
  rcases opens_markup_char c s opens with rfl | rfl <;> decide

theorem line_special_punctuation (c : Char) (listed : c ∈ lineSpecial) : isPunctuation c := by
  have all : lineSpecial.all isPunctuation = true := by decide
  exact List.all_eq_true.mp all c listed

-- What is written, and the text that is read from it.
inductive Reads : Chars → Chars → Prop where
  | nil : Reads [] []
  | plain (c : Char) (w s : Chars) (common : c ≠ '\\') (rest : Reads w s) : Reads (c :: w) (c :: s)
  | slashed (c : Char) (w s : Chars) (punctuation : isPunctuation c) (rest : Reads w s) :
      Reads ('\\' :: c :: w) (c :: s)

theorem reads_unescape (w s : Chars) (reads : Reads w s) : unescape w = s := by
  induction reads with
  | nil => rfl
  | plain c w s common _ ih => rw [unescape_plain c w common, ih]
  | slashed c w s punctuation _ ih => rw [unescape_slashed c w punctuation, ih]

theorem reads_append (w v s t : Chars) (first : Reads w s) (next : Reads v t) : Reads (w ++ v) (s ++ t) := by
  induction first with
  | nil => exact next
  | plain c w s common _ ih => exact .plain c _ _ common ih
  | slashed c w s punctuation _ ih => exact .slashed c _ _ punctuation ih

theorem reads_self (s : Chars) (unslashed : '\\' ∉ s) : Reads s s := by
  induction s with
  | nil => exact .nil
  | cons c s ih =>
      simp only [List.mem_cons, not_or] at unslashed
      exact .plain c s s (Ne.symm unslashed.1) (ih unslashed.2)

theorem reads_last (w s : Chars) (reads : Reads w s) : w.getLast? = s.getLast? := by
  induction reads with
  | nil => rfl
  | plain c w s _ _ ih => simp [List.getLast?_cons, ih]
  | slashed c w s _ _ ih => simp [List.getLast?_cons, ih]

theorem reads_mem (w s : Chars) (reads : Reads w s) : ∀ c ∈ s, c ∈ w := by
  induction reads with
  | nil => simp
  | plain d w s _ _ ih =>
      intro c member
      exact List.mem_cons.mpr ((List.mem_cons.mp member).imp_right (ih c))
  | slashed d w s _ _ ih =>
      intro c member
      exact List.mem_cons_of_mem _ (List.mem_cons.mpr ((List.mem_cons.mp member).imp_right (ih c)))

theorem reads_unmarked (w s : Chars) (reads : Reads w s) (none : ∀ c ∈ s, isPunctuation c = false) : w = s := by
  induction reads with
  | nil => rfl
  | plain c w s _ _ ih => rw [ih fun d member => none d (List.mem_cons_of_mem c member)]
  | slashed c w s punctuation _ _ =>
      rw [none c List.mem_cons_self] at punctuation
      cases punctuation

theorem reads_behind (front w s : Chars) (reads : Reads (front ++ w) s) (unslashed : '\\' ∉ front) :
    ∃ t, s = front ++ t ∧ Reads w t := by
  induction front generalizing s with
  | nil => exact ⟨s, rfl, reads⟩
  | cons c front ih =>
      simp only [List.mem_cons, not_or] at unslashed
      generalize whole : (c :: front) ++ w = both at reads
      cases reads with
      | nil => cases whole
      | plain d both t _ rest =>
          obtain ⟨rfl, rfl⟩ := List.cons.inj whole
          obtain ⟨u, rfl, reads⟩ := ih t rest unslashed.2
          exact ⟨u, rfl, reads⟩
      | slashed => exact absurd (List.cons.inj whole).1.symm unslashed.1

-- A backslash hides punctuation only, so what is written can be cut before anything else.
theorem reads_cut (w v s : Chars) (reads : Reads (w ++ v) s) (free : v.head?.any isPunctuation = false) :
    ∃ t u, s = t ++ u ∧ Reads w t ∧ Reads v u := by
  generalize whole : w ++ v = both at reads
  induction reads generalizing w with
  | nil =>
      obtain ⟨rfl, rfl⟩ := List.append_eq_nil_iff.mp whole
      exact ⟨[], [], rfl, .nil, .nil⟩
  | plain c both s common rest ih =>
      cases w with
      | nil =>
          subst whole
          exact ⟨[], c :: s, rfl, .nil, .plain c both s common rest⟩
      | cons d w =>
          obtain ⟨rfl, parts⟩ := List.cons.inj whole
          obtain ⟨t, u, rfl, first, next⟩ := ih w parts
          exact ⟨d :: t, u, rfl, .plain d w t common first, next⟩
  | slashed c both s punctuation rest ih =>
      cases w with
      | nil =>
          subst whole
          exact ⟨[], c :: s, rfl, .nil, .slashed c both s punctuation rest⟩
      | cons d w =>
          obtain ⟨rfl, parts⟩ := List.cons.inj whole
          cases w with
          | nil =>
              rw [show v = c :: both from parts] at free
              simp [punctuation] at free
          | cons e w =>
              obtain ⟨rfl, more⟩ := List.cons.inj parts
              obtain ⟨t, u, rfl, first, next⟩ := ih w more
              exact ⟨e :: t, u, rfl, .slashed e w t punctuation first, next⟩

-- A backslash of the text is special itself, so a plain character is none: every backslash that is
-- read first is one that escaping put there, and it hides the character behind it from the reader.
theorem spelled_reads (special : Chars) (start : Bool) (s w : Chars) (spelled : Spelled special start s w)
    (slash : '\\' ∈ special) (punctuation : special.all isPunctuation = true) : Reads w s := by
  induction spelled with
  | nil => exact .nil
  | plain start c s w common _ _ ih => exact .plain c w s (fun same => common (same ▸ slash)) ih
  | slashed start c s w reason _ ih =>
      refine .slashed c w s ?_ ih
      rcases reason with listed | opens | ⟨-, listed⟩
      · exact List.all_eq_true.mp punctuation c listed
      · exact opens_markup_punctuation c w opens
      · exact line_special_punctuation c listed

theorem markdown_reads (s ahead : Chars) : Reads (markdown s ahead) s :=
  spelled_reads inlineSpecial true s _ (markdown_spelled s ahead) (by decide) (by decide)

theorem preformatted_reads (s ahead : Chars) : Reads (preformatted s ahead) s :=
  spelled_reads allSpecial true s _ (preformatted_spelled s ahead) (by decide) (by decide)

theorem unescape_escaped (s ahead : Chars) :
    unescape (markdown s ahead) = s ∧ unescape (preformatted s ahead) = s :=
  ⟨reads_unescape _ s (markdown_reads s ahead), reads_unescape _ s (preformatted_reads s ahead)⟩

example : unescape (markdown "1. \\*a & &lt;".toList []) = "1. \\*a & &lt;".toList := by decide

end Downmark.Escape
