import Downmark.Proofs.TagTexts
/-!
Where raw text ends. Main statements: it ends at the latest before an end tag that is written for its element, in text
without a bracket just there, and what ends it is always read as that end tag.
-/

set_option autoImplicit false

namespace Downmark

namespace Text

/-- The letters in the names of the elements with raw text. -/
def rawLetters : Chars := "scriptyle".toList

theorem low_raw_letter (n : Nat) (low : n < 128)
    (lowered : (if 'A' ≤ Char.ofNat n && Char.ofNat n ≤ 'Z' then Char.ofNat (n + 32) else Char.ofNat n) ∈ rawLetters) :
    isAsciiLetter (Char.ofNat n) = true := by
  have all : ∀ n < 128, (if 'A' ≤ Char.ofNat n && Char.ofNat n ≤ 'Z' then Char.ofNat (n + 32) else Char.ofNat n) ∈
      rawLetters → isAsciiLetter (Char.ofNat n) = true := by decide +kernel
  exact all n low lowered

-- The Kelvin sign is the only character past ASCII whose small letter is a letter of ASCII, apart from a dotted i.
theorem high_raw_letter (c : Char) (high : 128 ≤ c.toNat) : mapRuns lowerRuns c ∉ rawLetters := by
  have past : ∀ run ∈ lowerRuns,
      128 ≤ run.first + run.shift ∨ run.first = run.last ∧ run.first + run.shift = 'k'.toNat := by decide +kernel
  have small : ∀ n ∈ rawLetters.map Char.toNat, n < 128 ∧ n ≠ 'k'.toNat ∧ n ≠ 0 := by decide
  intro member
  obtain ⟨low, other, some⟩ := small _ (List.mem_map_of_mem member)
  unfold mapRuns at low other some
  cases found : lowerRuns.find? fun run =>
      run.first ≤ c.toNat && c.toNat ≤ run.last && (c.toNat - run.first) % run.step == 0 with
  | none =>
      rw [found] at low
      exact absurd low (Nat.not_lt.mpr high)
  | some run =>
      rw [found] at low other some
      have within := List.find?_some found
      simp only [Bool.and_eq_true, decide_eq_true_eq] at within
      dsimp only at low other some
      have code (n : Nat) : (Char.ofNat n).toNat = n ∨ (Char.ofNat n).toNat = 0 := by
        by_cases valid : n.isValidChar
        · exact .inl (by rw [Char.ofNat, dif_pos valid]; rfl)
        · exact .inr (by rw [Char.ofNat, dif_neg valid]; rfl)
      have moved := (code _).resolve_right some
      rw [moved] at low other
      rcases past run (List.mem_of_find?_eq_some found) with above | ⟨single, kelvin⟩ <;> omega

theorem raw_letter (before : Chars) (c : Char) (after : Chars)
    (lowered : ∀ x ∈ lowerChar before c after, x ∈ rawLetters) : isAsciiLetter c = true := by
  have none : 'σ' ∉ rawLetters ∧ 'ς' ∉ rawLetters ∧ '\u0307' ∉ rawLetters := by decide
  unfold lowerChar at lowered
  split at lowered
  · rename_i low
    have letter := low_raw_letter c.toNat low
    rw [Char.ofNat_toNat] at letter
    exact letter (lowered _ (List.mem_singleton_self _))
  · rename_i high
    split at lowered
    · have sigma := lowered _ (List.mem_singleton_self _)
      split at sigma
      · exact absurd sigma none.2.1
      · exact absurd sigma none.1
    · split at lowered
      · exact absurd (lowered '\u0307' (by simp)) none.2.2
      · exact absurd (lowered _ (List.mem_singleton_self _)) (high_raw_letter c (Nat.not_lt.mp high))

theorem raw_letters (s before : Chars) (lowered : ∀ x ∈ lowerFrom before s, x ∈ rawLetters) :
    ∀ c ∈ s, isAsciiLetter c = true := by
  induction s generalizing before with
  | nil => exact fun c member => by cases member
  | cons c rest ih =>
      rw [lowerFrom] at lowered
      refine List.forall_mem_cons.mpr ⟨?_, ih (c :: before) fun x member => ?_⟩
      · exact raw_letter before c rest fun x member => lowered x (List.mem_append_left _ member)
      · exact lowered x (List.mem_append_right _ member)

end Text

namespace Html

/-- Whether raw text of an element ends at the start of a text. -/
def endsRaw (name s : Chars) : Bool :=
  match Text.strip? ['<', '/'] s with
  | some rest =>
    let rest := rest.dropWhile Text.isBlank
    Text.lower (rest.take name.length) == name && ((rest.drop name.length).dropWhile Text.isBlank).head? == some '>'
  | none => false

theorem raw_length_cons (name : Chars) (c : Char) (s : Chars) :
    rawLength name (c :: s) = if endsRaw name (c :: s) then some 0 else (rawLength name s).map (· + 1) := rfl

theorem raw_length_ends (name s : Chars) (n : Nat) (found : rawLength name s = some n) :
    endsRaw name (s.drop n) = true := by
  induction s generalizing n with
  | nil => cases found
  | cons c rest ih =>
      rw [raw_length_cons] at found
      split at found
      · rename_i ends
        cases found
        exact ends
      · obtain ⟨k, inside, rfl⟩ := Option.map_eq_some_iff.mp found
        exact ih k inside

theorem raw_length_found (name front back : Chars) (ends : endsRaw name back = true) :
    ∃ n ≤ front.length, rawLength name (front ++ back) = some n := by
  induction front with
  | nil =>
      cases back with
      | nil => cases ends
      | cons c back => exact ⟨0, Nat.le_refl 0, by rw [List.nil_append, raw_length_cons, if_pos ends]⟩
  | cons c front ih =>
      obtain ⟨n, short, found⟩ := ih
      rw [List.cons_append, raw_length_cons, found]
      split
      · exact ⟨0, Nat.zero_le _, rfl⟩
      · exact ⟨n + 1, Nat.succ_le_succ short, rfl⟩

theorem raw_length_exact (name front back : Chars) (free : '<' ∉ front) (ends : endsRaw name back = true) :
    rawLength name (front ++ back) = some front.length := by
  induction front with
  | nil =>
      cases back with
      | nil => cases ends
      | cons c back => rw [List.nil_append, raw_length_cons, if_pos ends, List.length_nil]
  | cons c front ih =>
      obtain ⟨other, free⟩ : c ≠ '<' ∧ '<' ∉ front := by simpa [eq_comm] using free
      have goes : endsRaw name (c :: (front ++ back)) = false := by simp [endsRaw, Text.strip?, Ne.symm other]
      rw [List.cons_append, raw_length_cons, goes, if_neg Bool.false_ne_true, ih free]
      rfl

theorem part_solid (c : Char) (part : isNamePart c = true) : Text.isBlank c = false := by
  simp only [isNamePart, Bool.or_eq_true, beq_iff_eq] at part
  rcases part with ((((letter | digit) | rfl) | rfl) | rfl) | rfl
  · exact word_solid c (by simp [Text.isWord, letter])
  · exact word_solid c (by simp [Text.isWord, digit])
  all_goals rfl

theorem ends_raw_parts (name s : Chars) (ends : endsRaw name s = true) : ∃ rest word blanks tail,
    s = '<' :: '/' :: rest ∧ rest.dropWhile Text.isBlank = word ++ (blanks ++ '>' :: tail) ∧ Text.lower word = name ∧
      ∀ x ∈ blanks, Text.isBlank x = true := by
  unfold endsRaw at ends
  split at ends
  · rename_i rest found
    obtain ⟨same, bracket⟩ := (Bool.and_eq_true _ _).mp ends
    let after := (rest.dropWhile Text.isBlank).drop name.length
    obtain ⟨tail, left⟩ : ∃ tail, after.dropWhile Text.isBlank = '>' :: tail :=
      List.head?_eq_some_iff.mp (eq_of_beq bracket)
    refine ⟨rest, (rest.dropWhile Text.isBlank).take name.length, after.takeWhile Text.isBlank, tail,
      Text.eq_append_of_strip found, ?_, eq_of_beq same, List.all_eq_true.mp List.all_takeWhile⟩
    rw [← left, List.takeWhile_append_dropWhile, List.take_append_drop]
  · cases ends

-- The end tag may have white space in it and capital letters.
theorem raw_end_read (name : String) (raw : rawNames.contains name = true) (s : Chars)
    (ends : endsRaw name.toList s = true) :
    ∃ length, 0 < length ∧ endTag (s.drop 2) = .token (.endTag name) length := by
  have letters : ∀ name ∈ rawNames, name.toList ≠ [] ∧ name.toList ⊆ Text.rawLetters := by decide
  obtain ⟨some, spelled⟩ := letters name (List.contains_iff_mem.mp raw)
  obtain ⟨rest, word, blanks, tail, rfl, whole, same, gap⟩ := ends_raw_parts name.toList s ends
  have all : ∀ c ∈ word, Text.isAsciiLetter c = true := Text.raw_letters word [] fun x member =>
    spelled (same ▸ member)
  cases word with
  | nil => exact absurd same.symm some
  | cons c more =>
      obtain ⟨letter, others⟩ := List.forall_mem_cons.mp all
      have stop : (blanks ++ '>' :: tail).head?.any isNamePart = false := by
        cases blanks with
        | nil => rfl
        | cons x more =>
            change isNamePart x = false
            rw [Bool.eq_false_iff]
            intro part
            have solid := part_solid x part
            rw [gap x List.mem_cons_self] at solid
            cases solid
      have part : ∀ x ∈ more, isNamePart x = true := fun x member => by simp [isNamePart, others x member]
      have run : (more ++ (blanks ++ '>' :: tail)).takeWhile isNamePart = more := Text.take_run _ _ _ part stop
      have left : afterName (more ++ (blanks ++ '>' :: tail)) = '>' :: tail := by
        rw [afterName, List.dropWhile_append_of_pos part, Text.drop_none _ _ stop, List.dropWhile_append_of_pos gap]
        rfl
      have found : (toBracket rest).isSome = true := by
        rw [← List.takeWhile_append_dropWhile (p := Text.isBlank) (l := rest), whole, ← List.append_assoc,
          ← List.append_assoc]
        exact bracket_found _ tail
      have read := end_tag_closed rest found c (more ++ (blanks ++ '>' :: tail)) whole letter (by rw [left]; rfl)
      have lower : lowerText (c :: more) = name := by
        rw [lowerText, same, String.ofList_toList]
      rw [run, lower] at read
      exact ⟨_, Nat.succ_pos _, read⟩

end Html

end Downmark
