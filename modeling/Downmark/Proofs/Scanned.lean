import Mathlib.Data.List.Chain
import Downmark.Proofs.Unescaped
/-!
Reading up to the bracket that closes a text. A backslash before punctuation is dropped, and what it stands before
means nothing; brackets of other texts are counted. Main statement: a text in which a backslash was put before some
characters is read back exactly if its own backslashes stand before nothing else that is punctuation, and the
characters that are left without a backslash to themselves are brackets in pairs or mean nothing.
-/

set_option autoImplicit false

namespace Downmark.Escape

/-- What a character means to a reader. -/
inductive Role where
  | plain
  | opens
  | closes
  /-- It may not stand in the text. -/
  | stops
deriving DecidableEq

/-- How many brackets are open after a character, unless the text ends before it. -/
def Role.next : Role → Nat → Option Nat
  | .plain, depth => some depth
  | .opens, depth => some (depth + 1)
  | .closes, 0 => none
  | .closes, depth + 1 => some depth
  | .stops, _ => none

def put (c : Char) (read : Chars × Chars) : Chars × Chars := (c :: read.1, read.2)

/-- The text up to where it ends, and what comes from there on. -/
def scan (role : Char → Role) (depth : Nat) : Chars → Option (Chars × Chars)
  | [] => if depth = 0 then some ([], []) else none
  | '\\' :: c :: s =>
    if isPunctuation c then (scan role depth s).map (put c) else (scan role depth (c :: s)).map (put '\\')
  | c :: s =>
    match (role c).next depth with
    | some depth => (scan role depth s).map (put c)
    | none => if depth = 0 then some ([], c :: s) else none

/-- Whether some characters are brackets in pairs or mean nothing. -/
def nested (role : Char → Role) : Nat → Chars → Bool
  | depth, [] => depth == 0
  | depth, c :: s =>
    match (role c).next depth with
    | some depth => nested role depth s
    | none => false

/-- The characters of a text that are left bare where a backslash is put before some: those of no such kind, and those
after a backslash, which takes the one put there for itself. -/
def bare (special : Chars) (slashed : Bool) : Chars → Chars
  | [] => []
  | c :: s => if special.contains c && !slashed then bare special false s else c :: bare special (c == '\\') s

/-- The backslashes of a text stand before no punctuation but some. -/
def Literal (special s : Chars) : Prop := s.IsChain fun a b => a = '\\' → isPunctuation b = true → b ∈ special

/-- A text of which nothing is lost or misread where a backslash is put before some characters. -/
structure Faithful (role : Char → Role) (special s : Chars) : Prop where
  literal : Literal special s
  nested : nested role 0 (bare special false s) = true

section

variable (role : Char → Role) (depth : Nat) (c : Char) (s : Chars)

theorem scan_slashed (punctuation : isPunctuation c = true) :
    scan role depth ('\\' :: c :: s) = (scan role depth s).map (put c) := by
  rw [scan, if_pos punctuation]

theorem scan_kept (other : isPunctuation c = false) :
    scan role depth ('\\' :: c :: s) = (scan role depth (c :: s)).map (put '\\') := by
  rw [scan, if_neg (Bool.eq_false_iff.mp other)]

theorem scan_bare (common : c ≠ '\\') : scan role depth (c :: s) =
    match (role c).next depth with
    | some depth => (scan role depth s).map (put c)
    | none => if depth = 0 then some ([], c :: s) else none := by
  rw [scan]
  rintro d t rfl
  exact absurd rfl common

theorem unescape_kept (other : isPunctuation c = false) : unescape ('\\' :: c :: s) = '\\' :: unescape (c :: s) := by
  rw [unescape, if_neg (Bool.eq_false_iff.mp other)]

end

/-- What comes after a text: nothing, or a character that ends it. -/
def Ends (role : Char → Role) (rest : Chars) : Prop := ∀ c ∈ rest.head?, c ≠ '\\' ∧ (role c).next 0 = none

theorem map_put (read : Option (Chars × Chars)) (c d : Char) (s rest : Chars) :
    read.map (put c) = some (d :: s, rest) ↔ c = d ∧ read = some (s, rest) := by
  rcases read with - | ⟨text, after⟩ <;> simp [put, and_assoc]

theorem map_put_some (read : Option (Chars × Chars)) (c : Char) (rest : Chars) :
    read.map (put c) ≠ some ([], rest) := by
  rcases read with - | ⟨text, after⟩ <;> simp [put]

theorem scan_ended (role : Char → Role) (depth : Nat) (rest : Chars) (ends : Ends role rest) :
    scan role depth rest = some ([], rest) ↔ depth = 0 := by
  cases rest with
  | nil =>
      rw [scan]
      split <;> simp [*]
  | cons c rest =>
      obtain ⟨common, last⟩ := ends c rfl
      rw [scan_bare role depth c rest common]
      cases depth with
      | zero => simp [last]
      | succ depth =>
          split
          · exact ⟨fun read => absurd read (map_put_some _ c _), nofun⟩
          · simp

theorem bare_special (special : Chars) (c : Char) (s : Chars) (listed : c ∈ special) :
    bare special false (c :: s) = bare special false s := by
  rw [bare, List.contains_iff_mem.mpr listed]
  rfl

theorem bare_other (special : Chars) (slashed : Bool) (c : Char) (s : Chars) (other : c ∉ special ∨ slashed = true) :
    bare special slashed (c :: s) = c :: bare special (c == '\\') s := by
  rw [bare, if_neg]
  rcases other with other | rfl <;> simp [*]

theorem bare_unslashed (special s : Chars) (free : '\\' ∉ s) : bare special false s = s.filter (· ∉ special) := by
  induction s with
  | nil => rfl
  | cons c s ih =>
      rw [List.mem_cons, not_or] at free
      by_cases listed : c ∈ special
      · rw [bare_special special c s listed, ih free.2, List.filter_cons_of_neg (by simpa using listed)]
      · rw [bare_other special false c s (.inl listed), beq_eq_false_iff_ne.mpr (Ne.symm free.1), ih free.2,
          List.filter_cons_of_pos (by simpa using listed)]

theorem nested_plain (role : Char → Role) (depth : Nat) (s : Chars) (plain : ∀ c ∈ s, role c = .plain) :
    nested role depth s = (depth == 0) := by
  induction s with
  | nil => rfl
  | cons c s ih =>
      rw [List.forall_mem_cons] at plain
      rw [nested, plain.1]
      exact ih plain.2

/-- Without backslashes a text is faithful if a backslash is put before all that means something. -/
theorem unslashed_faithful (role : Char → Role) (special s : Chars) (free : '\\' ∉ s)
    (plain : s.all (fun c => special.contains c || role c == .plain) = true) : Faithful role special s := by
  constructor
  · refine List.isChain_iff_forall_rel_of_append_cons_cons.mpr fun a b before after whole slash => ?_
    subst slash whole
    simp at free
  · rw [bare_unslashed special s free, nested_plain role 0 _ fun c member => ?_]
    · rfl
    · obtain ⟨member, other⟩ := List.mem_filter.mp member
      have known := List.all_eq_true.mp plain c member
      rw [Bool.or_eq_true, List.contains_iff_mem, beq_iff_eq] at known
      exact known.resolve_left (of_decide_eq_true other)

theorem last_plain (c : Char) (s : Chars) (common : c ≠ '\\') :
    (c :: s).getLast? = some '\\' ↔ s.getLast? = some '\\' := by
  cases s <;> simp [List.getLast?_cons, common]

-- A backslash is looked at together with what comes after it.
theorem slash_induction {P : Chars → Prop} (nil : P []) (plain : ∀ c s, c ≠ '\\' → P s → P (c :: s)) (last : P ['\\'])
    (slashed : ∀ c s, P s → P (c :: s) → P ('\\' :: c :: s)) (s : Chars) : P s := by
  cases s with
  | nil => exact nil
  | cons c s =>
      by_cases slash : c = '\\'
      · subst slash
        cases s with
        | nil => exact last
        | cons d s =>
            exact slashed d s (slash_induction nil plain last slashed s)
              (slash_induction nil plain last slashed (d :: s))
      · exact plain c s slash (slash_induction nil plain last slashed s)
termination_by s.length

theorem literal_plain (special : Chars) (c : Char) (s : Chars) (common : c ≠ '\\') :
    Literal special (c :: s) ↔ Literal special s := by
  rw [Literal, List.isChain_cons]
  exact and_iff_right fun _ _ slash => absurd slash common

theorem literal_slashed (special : Chars) (c : Char) (s : Chars) :
    Literal special ('\\' :: c :: s) ↔ (isPunctuation c = true → c ∈ special) ∧ Literal special (c :: s) := by
  rw [Literal, List.isChain_cons_cons]
  exact and_congr_left fun _ => ⟨fun rel => rel rfl, fun rel _ => rel⟩

theorem count_unescape (c : Char) (common : c ≠ '\\') (s : Chars) : (unescape s).count c = s.count c := by
  induction s using slash_induction with
  | nil => rfl
  | plain d s other ih => rw [unescape_plain d s other, List.count_cons, List.count_cons, ih]
  | last => rfl
  | slashed d s ih deeper =>
      cases punctuation : isPunctuation d with
      | true =>
          rw [unescape_slashed d s punctuation, List.count_cons, ih, List.count_cons_of_ne (Ne.symm common),
            List.count_cons]
      | false =>
          rw [unescape_kept d s punctuation, List.count_cons_of_ne (Ne.symm common), deeper,
            List.count_cons_of_ne (Ne.symm common)]

section

variable (special : Chars) (punctuated : ∀ c ∈ special, isPunctuation c = true) (unslashed : '\\' ∉ special)

theorem backslash_special (c : Char) (s : Chars) (listed : c ∈ special) :
    Text.backslash special (c :: s) = '\\' :: c :: Text.backslash special s := by
  rw [Text.backslash, List.flatMap_cons, if_pos (List.contains_iff_mem.mpr listed)]
  rfl

theorem backslash_other (c : Char) (s : Chars) (other : c ∉ special) :
    Text.backslash special (c :: s) = c :: Text.backslash special s := by
  rw [Text.backslash, List.flatMap_cons, if_neg (by simpa using other)]
  rfl

theorem count_backslash (c : Char) (common : c ≠ '\\') (s : Chars) :
    (Text.backslash special s).count c = s.count c := by
  induction s with
  | nil => rfl
  | cons d s ih =>
      by_cases listed : d ∈ special
      · rw [backslash_special special d s listed, List.count_cons_of_ne (Ne.symm common), List.count_cons, ih,
          List.count_cons]
      · rw [backslash_other special d s listed, List.count_cons, ih, List.count_cons]

include punctuated unslashed

-- Each character that got a backslash takes one with it when it is read.
theorem fewer_backslashes (s : Chars) : (unescape (Text.backslash special s)).count '\\' ≤ s.count '\\' := by
  induction s using slash_induction with
  | nil => exact Nat.le_refl _
  | plain c s common ih =>
      by_cases listed : c ∈ special
      · rw [backslash_special special c s listed, unescape_slashed c _ (punctuated c listed),
          List.count_cons_of_ne common,
          List.count_cons_of_ne common]
        exact ih
      · rw [backslash_other special c s listed, unescape_plain c _ common, List.count_cons_of_ne common,
          List.count_cons_of_ne common]
        exact ih
  | last =>
      rw [backslash_other special '\\' [] unslashed]
      exact Nat.le_refl _
  | slashed c s ih deeper =>
      rw [backslash_other special '\\' _ unslashed]
      by_cases listed : c ∈ special
      · have common : c ≠ '\\' := fun same => unslashed (same ▸ listed)
        rw [backslash_special special c s listed, unescape_slashed '\\' _ rfl, unescape_plain c _ common,
          List.count_cons_self, List.count_cons_self, List.count_cons_of_ne common, List.count_cons_of_ne common]
        omega
      · rw [backslash_other special c s listed] at deeper ⊢
        cases punctuation : isPunctuation c with
        | true =>
            rw [unescape_slashed c _ punctuation, List.count_cons, List.count_cons_self, List.count_cons]
            omega
        | false =>
            rw [unescape_kept c _ punctuation, List.count_cons_self, List.count_cons_self]
            omega

/-- A backslash that is lost is never made up for. -/
theorem unescape_backslash (s : Chars) : unescape (Text.backslash special s) = s ↔ Literal special s := by
  induction s using slash_induction with
  | nil => exact ⟨fun _ => List.IsChain.nil, fun _ => rfl⟩
  | plain c s common ih =>
      rw [literal_plain special c s common, ← ih]
      by_cases listed : c ∈ special
      · rw [backslash_special special c s listed, unescape_slashed c _ (punctuated c listed), List.cons.injEq]
        exact and_iff_right rfl
      · rw [backslash_other special c s listed, unescape_plain c _ common, List.cons.injEq]
        exact and_iff_right rfl
  | last =>
      rw [backslash_other special '\\' [] unslashed]
      exact ⟨fun _ => List.isChain_singleton _, fun _ => rfl⟩
  | slashed c s ih deeper =>
      rw [backslash_other special '\\' _ unslashed, literal_slashed]
      by_cases listed : c ∈ special
      · have common : c ≠ '\\' := fun same => unslashed (same ▸ listed)
        rw [backslash_special special c s listed, unescape_slashed '\\' _ rfl, unescape_plain c _ common,
          literal_plain special c s common, ← ih]
        simp [listed]
      · rw [backslash_other special c s listed] at deeper ⊢
        cases punctuation : isPunctuation c with
        | false =>
            rw [unescape_kept c _ punctuation, ← deeper, List.cons.injEq]
            simp
        | true =>
            refine ⟨fun same => ?_, fun literal => absurd (literal.1 rfl) listed⟩
            rw [unescape_slashed c _ punctuation] at same
            obtain ⟨rfl, rest⟩ := List.cons.inj same
            have fewer := fewer_backslashes special punctuated unslashed s
            rw [rest, List.count_cons_self] at fewer
            omega

end

section

variable (role : Char → Role) (mute : role '\\' = .plain)

include mute

theorem scan_last (depth : Nat) : scan role depth ['\\'] = if depth = 0 then some (['\\'], []) else none := by
  rw [scan, mute]
  · dsimp only [Role.next]
    rw [scan]
    split <;> rfl
  · nofun

-- Only backslashes are lost of what is read, and the rest does not begin with one.
theorem scan_reads (depth : Nat) (w text rest : Chars) (found : scan role depth w = some (text, rest)) :
    (∃ read, w = read ++ rest ∧ unescape read = text) ∧ rest.head? ≠ some '\\' := by
  induction w using slash_induction generalizing depth text with
  | nil =>
      rw [scan] at found
      split at found
      · cases found
        exact ⟨⟨[], rfl, rfl⟩, nofun⟩
      · cases found
  | plain c w common ih =>
      rw [scan_bare role depth c w common] at found
      split at found
      · obtain ⟨⟨inner, after⟩, deeper, same⟩ := Option.map_eq_some_iff.mp found
        cases same
        obtain ⟨⟨read, rfl, rfl⟩, stop⟩ := ih _ inner deeper
        exact ⟨⟨c :: read, rfl, unescape_plain c read common⟩, stop⟩
      · split at found
        · cases found
          exact ⟨⟨[], rfl, rfl⟩, by simpa using common⟩
        · cases found
  | last =>
      rw [scan_last role mute] at found
      split at found
      · cases found
        exact ⟨⟨['\\'], rfl, rfl⟩, nofun⟩
      · cases found
  | slashed c w ih further =>
      cases punctuation : isPunctuation c with
      | true =>
          rw [scan_slashed role depth c w punctuation] at found
          obtain ⟨⟨inner, after⟩, deeper, same⟩ := Option.map_eq_some_iff.mp found
          cases same
          obtain ⟨⟨read, rfl, rfl⟩, stop⟩ := ih _ inner deeper
          exact ⟨⟨'\\' :: c :: read, rfl, unescape_slashed c read punctuation⟩, stop⟩
      | false =>
          rw [scan_kept role depth c w punctuation] at found
          obtain ⟨⟨inner, after⟩, deeper, same⟩ := Option.map_eq_some_iff.mp found
          cases same
          obtain ⟨⟨read, whole, rfl⟩, stop⟩ := further _ inner deeper
          refine ⟨⟨'\\' :: read, by rw [whole]; rfl, ?_⟩, stop⟩
          cases read with
          | nil => rfl
          | cons d read =>
              obtain rfl := (List.cons.inj whole).1
              exact unescape_kept c read punctuation

variable (special : Chars) (punctuated : ∀ c ∈ special, isPunctuation c = true) (unslashed : '\\' ∉ special)

omit mute in
theorem only_slashes (x : Chars) (none : ∀ c, c ≠ '\\' → x.count c = 0) : ∀ c ∈ x, c = '\\' := by
  intro c member
  by_contra other
  exact absurd (none c other) (Nat.ne_of_gt (List.count_pos_iff.mpr member))

/-- Where the very text is read, reading ends where the text does. -/
theorem scan_rest (depth : Nat) (s rest after : Chars) (ends : rest.head? ≠ some '\\')
    (found : scan role depth (Text.backslash special s ++ rest) = some (s, after)) :
    after = rest ∧ unescape (Text.backslash special s) = s := by
  obtain ⟨⟨read, whole, reads⟩, stop⟩ := scan_reads role mute depth _ s after found
  have same (c : Char) (common : c ≠ '\\') : read.count c = (Text.backslash special s).count c := by
    rw [← count_unescape c common, reads, count_backslash special c common]
  rcases List.append_eq_append_iff.mp whole with ⟨x, longer, rfl⟩ | ⟨x, longer, rfl⟩
  · have slashes := only_slashes x fun c common => by
      have count := same c common
      rw [longer, List.count_append] at count
      omega
    cases x with
    | nil =>
        rw [List.append_nil] at longer
        exact ⟨rfl, by rw [← longer, reads]⟩
    | cons c x =>
        obtain rfl := slashes c List.mem_cons_self
        exact absurd rfl ends
  · have slashes := only_slashes x fun c common => by
      have count := same c common
      rw [longer, List.count_append] at count
      omega
    cases x with
    | nil => exact ⟨rfl, by rw [longer, List.append_nil, reads]⟩
    | cons c x =>
        obtain rfl := slashes c List.mem_cons_self
        exact absurd rfl stop

include punctuated unslashed

/-- A text whose own backslashes stand before nothing else that is punctuation. -/
theorem scan_literal (depth : Nat) (s rest : Chars) (ends : Ends role rest) (literal : Literal special s) :
    scan role depth (Text.backslash special s ++ rest) = some (s, rest) ↔
      nested role depth (bare special false s) = true ∧
        (s.getLast? = some '\\' → rest.head?.any isPunctuation = false) := by
  induction s using slash_induction generalizing depth with
  | nil =>
      rw [show Text.backslash special [] ++ rest = rest from rfl, scan_ended role depth rest ends, bare, nested]
      simp
  | plain c s common ih =>
      rw [literal_plain special c s common] at literal
      by_cases listed : c ∈ special
      · rw [backslash_special special c s listed, List.cons_append, List.cons_append,
          scan_slashed role depth c _ (punctuated c listed), map_put, ih depth literal, last_plain c s common,
          bare_special special c s listed]
        exact and_iff_right rfl
      · rw [backslash_other special c s listed, List.cons_append, scan_bare role depth c _ common,
          bare_other special false c s (.inl listed), last_plain c s common, nested, beq_eq_false_iff_ne.mpr common]
        split
        · rw [map_put, ih _ literal]
          exact and_iff_right rfl
        · simp
  | last =>
      rw [backslash_other special '\\' [] unslashed, bare_other special false '\\' [] (.inl unslashed), nested, mute]
      change scan role depth ('\\' :: rest) = some (['\\'], rest) ↔ (depth == 0) = true ∧ _
      cases rest with
      | nil =>
          rw [scan_last role mute]
          simp
      | cons d rest =>
          cases punctuation : isPunctuation d with
          | true =>
              rw [scan_slashed role depth d rest punctuation, map_put]
              simp [(ends d rfl).1, punctuation]
          | false =>
              rw [scan_kept role depth d rest punctuation, map_put, scan_ended role depth _ ends]
              simp [punctuation]
  | slashed c s ih deeper =>
      rw [literal_slashed] at literal
      have final : ('\\' :: c :: s).getLast? = (c :: s).getLast? := rfl
      rw [backslash_other special '\\' _ unslashed, bare_other special false '\\' _ (.inl unslashed), nested, mute,
        final]
      change _ ↔ nested role depth (bare special true (c :: s)) = true ∧ _
      rw [bare_other special true c s (.inr rfl)]
      by_cases listed : c ∈ special
      · have common : c ≠ '\\' := fun same => unslashed (same ▸ listed)
        rw [backslash_special special c s listed, List.cons_append, List.cons_append, List.cons_append,
          scan_slashed role depth '\\' _ rfl, map_put, scan_bare role depth c _ common, nested, last_plain c s common,
          beq_eq_false_iff_ne.mpr common, and_iff_right rfl]
        split
        · rw [map_put, ih _ ((literal_plain special c s common).mp literal.2)]
          exact and_iff_right rfl
        · simp
      · have other : isPunctuation c = false := Bool.eq_false_iff.mpr fun punctuation => listed (literal.1 punctuation)
        rw [backslash_other special c s listed, List.cons_append, List.cons_append, scan_kept role depth c _ other,
          map_put,
          ← List.cons_append, ← backslash_other special c s listed, deeper depth literal.2,
          bare_other special false c s (.inl listed)]
        exact and_iff_right rfl

/-- A text is read back from what is written of it exactly if it is faithful, and does not end in a backslash that
what comes next gives a meaning. -/
theorem scan_written (s rest : Chars) (ends : Ends role rest) :
    scan role 0 (Text.backslash special s ++ rest) = some (s, rest) ↔
      Faithful role special s ∧ (s.getLast? = some '\\' → rest.head?.any isPunctuation = false) := by
  have stop : rest.head? ≠ some '\\' := fun slash => (ends _ slash).1 rfl
  constructor
  · intro found
    have literal := (unescape_backslash special punctuated unslashed s).mp
      (scan_rest role mute special 0 s rest _ stop found).2
    obtain ⟨pairs, final⟩ := (scan_literal role mute special punctuated unslashed 0 s rest ends literal).mp found
    exact ⟨⟨literal, pairs⟩, final⟩
  · rintro ⟨⟨literal, pairs⟩, final⟩
    exact (scan_literal role mute special punctuated unslashed 0 s rest ends literal).mpr ⟨pairs, final⟩

/-- A text that ends before a character that closes it, and not in a backslash. -/
theorem scan_closed (s more after : Chars) (c : Char) (closes : (role c).next 0 = none)
    (punctuation : isPunctuation c = true) (common : c ≠ '\\') :
    scan role 0 (Text.backslash special s ++ c :: more) = some (s, c :: after) ↔
      after = more ∧ Faithful role special s ∧ s.getLast? ≠ some '\\' := by
  have ends : Ends role (c :: more) := by
    intro d first
    cases first
    exact ⟨common, closes⟩
  have written := scan_written role mute special punctuated unslashed s (c :: more) ends
  have closed : ((c :: more).head?.any isPunctuation = false) ↔ False := by simp [punctuation]
  rw [closed] at written
  constructor
  · intro found
    obtain ⟨same, -⟩ := scan_rest role mute special 0 s (c :: more) _ (by simpa using common) found
    obtain rfl := (List.cons.inj same).2
    exact ⟨rfl, written.mp found⟩
  · rintro ⟨rfl, kept⟩
    exact written.mpr kept

end

end Downmark.Escape
