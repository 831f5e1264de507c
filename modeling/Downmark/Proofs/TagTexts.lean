import Mathlib.Data.List.TakeWhile
import Downmark.Html.Token
import Downmark.Node.Markup
import Downmark.Proofs.Lines
/-!
Tags that are written and read again. Main statements: a start tag is read with its name, the names of its attributes
and their values, and an end tag with its name, whatever comes after.
-/

set_option autoImplicit false

namespace Downmark.Html

/-- Letters and digits of any script in lower case. -/
structure IsTagName (name : String) : Prop where
  some : name.toList ≠ []
  word : ∀ c ∈ name.toList, Text.isWord c = true
  lower : lowerText name.toList = name

/-- Characters in lower case of which none ends the name of an attribute. -/
structure IsAttrName (name : String) : Prop where
  some : name.toList ≠ []
  plain : ∀ c ∈ name.toList, Text.isBlank c = false ∧ c ≠ '/' ∧ c ≠ '=' ∧ c ≠ '>'
  lower : lowerText name.toList = name

instance (name : String) : Decidable (IsTagName name) :=
  decidable_of_iff (name.toList ≠ [] ∧ name.toList.all Text.isWord = true ∧ lowerText name.toList = name)
    ⟨fun ⟨filled, word, lower⟩ => ⟨filled, List.all_eq_true.mp word, lower⟩,
      fun named => ⟨named.some, List.all_eq_true.mpr named.word, named.lower⟩⟩

instance (name : String) : Decidable (IsAttrName name) :=
  decidable_of_iff (name.toList ≠ [] ∧
      (name.toList.all fun c => Text.isBlank c = false ∧ c ≠ '/' ∧ c ≠ '=' ∧ c ≠ '>') = true ∧
      lowerText name.toList = name)
    ⟨fun ⟨filled, plain, lower⟩ => ⟨filled, by simpa using plain, lower⟩,
      fun named => ⟨named.some, by simpa using named.plain, named.lower⟩⟩

theorem take_through (p : Char → Bool) (run : Chars) (c : Char) (s : Chars) (all : ∀ x ∈ run, p x)
    (stop : p c = false) : (run ++ c :: s).takeWhile p = run ∧ (run ++ c :: s).dropWhile p = c :: s := by
  refine ⟨Text.take_run p run _ all stop, ?_⟩
  rw [List.dropWhile_append_of_pos all, List.dropWhile_cons_of_neg (by simpa using stop)]

/-! Attribute values -/

theorem read_value_plain (fuel : Nat) (c : Char) (s : Chars) (plain : c ≠ '&') :
    readValue fuel (c :: s) = c :: readValue fuel s := by
  cases fuel with
  | zero => rfl
  | succ fuel =>
      have passed : (c != '&') = true := by simpa using plain
      rw [readValue, readValue, List.dropWhile_cons, if_pos passed, List.takeWhile_cons, if_pos passed]
      split <;> rfl

theorem read_value_reference (fuel : Nat) (name s : Chars) (c : Char)
    (read : valueReference (name ++ s) = ([c], name.length)) :
    readValue (fuel + 1) ('&' :: (name ++ s)) = c :: readValue fuel s := by
  change _ ++ (valueReference (name ++ s)).1 ++ readValue fuel ((name ++ s).drop (valueReference (name ++ s)).2) = _
  rw [read, List.drop_left]
  rfl

theorem value_char_cases (c : Char) :
    (c ≠ '&' ∧ c ≠ '"' ∧ Markup.valueChar c = [c]) ∨
      ∃ name, Markup.valueChar c = '&' :: name ∧ '"' ∉ name ∧ ∀ s, valueReference (name ++ s) = ([c], name.length) := by
  unfold Markup.valueChar Markup.textChar
  by_cases quote : c = '"'
  · exact .inr ⟨"quot;".toList, by simp [quote], by decide, fun s => by subst quote; rfl⟩
  by_cases apostrophe : c = '\''
  · exact .inr ⟨"#x27;".toList, by simp [apostrophe], by decide, fun s => by subst apostrophe; rfl⟩
  by_cases ampersand : c = '&'
  · exact .inr ⟨"amp;".toList, by simp [ampersand], by decide, fun s => by subst ampersand; rfl⟩
  by_cases opening : c = '<'
  · exact .inr ⟨"lt;".toList, by simp [opening], by decide, fun s => by subst opening; rfl⟩
  by_cases closing : c = '>'
  · exact .inr ⟨"gt;".toList, by simp [closing], by decide, fun s => by subst closing; rfl⟩
  · exact .inl ⟨ampersand, quote, by simp [quote, apostrophe, ampersand, opening, closing]⟩

theorem value_references (v : Chars) (fuel : Nat) (enough : v.length ≤ fuel) : readValue fuel (Markup.value v) = v := by
  induction v generalizing fuel with
  | nil => cases fuel <;> rfl
  | cons c v ih =>
      have whole : Markup.value (c :: v) = Markup.valueChar c ++ Markup.value v := List.flatMap_cons
      rw [whole]
      rcases value_char_cases c with ⟨plain, -, same⟩ | ⟨name, same, -, read⟩
      · rw [same, List.singleton_append, read_value_plain _ _ _ plain, ih fuel (Nat.le_of_succ_le enough)]
      · obtain ⟨fuel, rfl⟩ : ∃ n, fuel = n + 1 := ⟨fuel - 1, by rw [List.length_cons] at enough; omega⟩
        rw [same, List.cons_append, read_value_reference _ _ _ _ (read _), ih fuel (Nat.le_of_succ_le_succ enough)]

theorem value_length (v : Chars) : v.length ≤ (Markup.value v).length := by
  induction v with
  | nil => exact Nat.le_refl 0
  | cons c v ih =>
      have whole : Markup.value (c :: v) = Markup.valueChar c ++ Markup.value v := List.flatMap_cons
      have some : 0 < (Markup.valueChar c).length := by
        rcases value_char_cases c with ⟨-, -, same⟩ | ⟨name, same, -⟩ <;> rw [same] <;> exact Nat.succ_pos _
      rw [whole, List.length_append, List.length_cons]
      omega

theorem value_read (v : Chars) : value (Markup.value v) = v := value_references v _ (value_length v)

theorem value_unquoted (v : Chars) : '"' ∉ Markup.value v := by
  intro member
  obtain ⟨c, -, inside⟩ := List.mem_flatMap.mp member
  rcases value_char_cases c with ⟨-, other, same⟩ | ⟨name, same, none, -⟩
  · rw [same, List.mem_singleton] at inside
    exact other inside.symm
  · rw [same, List.mem_cons] at inside
    exact inside.elim (by decide) none

/-! Attributes -/

theorem skip_through (c : Char) (s : Chars) (solid : Text.isBlank c = false) (plain : c ≠ '/') :
    skipBetween (c :: s) = c :: s ∧ skipBetween (' ' :: c :: s) = c :: s := by
  have stays : skipBetween (c :: s) = c :: s := by
    unfold skipBetween
    split
    · rename_i same
      exact absurd (List.cons.inj same).1 plain
    · rename_i same
      exact absurd (List.cons.inj same).1 plain
    · rename_i same
      obtain ⟨rfl, rfl⟩ := List.cons.inj same
      rw [solid, if_neg Bool.false_ne_true]
    · rename_i same
      cases same
  refine ⟨stays, ?_⟩
  have skipped : skipBetween (' ' :: c :: s) = skipBetween (c :: s) := by
    rw [skipBetween.eq_def]
    rfl
  rw [skipped, stays]

theorem quoted_value_read (v s : Chars) :
    attributeValue? ('=' :: '"' :: (Markup.value v ++ '"' :: s)) = some (Markup.value v, s) := by
  have passed : ∀ x ∈ Markup.value v, (x != '"') = true := fun x member => by
    have other : x ≠ '"' := fun same => value_unquoted v (same ▸ member)
    simpa using other
  obtain ⟨taken, left⟩ := take_through (· != '"') (Markup.value v) '"' s passed (by decide)
  have equals : ('=' :: '"' :: (Markup.value v ++ '"' :: s)).dropWhile (· == '=') =
      '"' :: (Markup.value v ++ '"' :: s) := rfl
  have solid : ('"' :: (Markup.value v ++ '"' :: s)).dropWhile Text.isBlank = '"' :: (Markup.value v ++ '"' :: s) := rfl
  have closed : (Markup.value v ++ '"' :: s).contains '"' = true := by simp
  unfold attributeValue?
  rw [equals]
  dsimp only
  rw [solid, if_neg (by simp)]
  dsimp only
  rw [if_pos (by rfl), if_pos closed, taken, left]
  rfl

theorem written_length (attrs : Attrs) : attrs.length ≤ (attrs.flatMap Markup.written).length := by
  induction attrs with
  | nil => exact Nat.le_refl 0
  | cons a rest ih =>
      rw [List.flatMap_cons, List.length_append, List.length_cons]
      have some : 0 < (Markup.written a).length := Nat.succ_pos _
      omega

theorem attributes_read (attrs : Attrs) (names : ∀ a ∈ attrs, IsAttrName a.1) (fuel : Nat)
    (enough : attrs.length < fuel) (last : Char) (s : Chars) :
    attributes fuel last (attrs.flatMap Markup.written ++ '>' :: s) = (attrs, '>' :: s) := by
  induction attrs generalizing fuel last with
  | nil =>
      obtain ⟨fuel, rfl⟩ : ∃ n, fuel = n + 1 := ⟨fuel - 1, by rw [List.length_nil] at enough; omega⟩
      have stays := (skip_through '>' s (by decide) (by decide)).1
      rw [List.flatMap_nil, List.nil_append, attributes, stays]
      rfl
  | cons a rest ih =>
      obtain ⟨fuel, rfl⟩ : ∃ n, fuel = n + 1 := ⟨fuel - 1, by rw [List.length_cons] at enough; omega⟩
      obtain ⟨named, others⟩ := List.forall_mem_cons.mp names
      obtain ⟨name, v⟩ := a
      obtain ⟨c, more, spelled⟩ := List.exists_cons_of_ne_nil named.some
      obtain ⟨⟨solid, slash, equals, bracket⟩, plain⟩ := List.forall_mem_cons.mp (spelled ▸ named.plain)
      let final := rest.flatMap Markup.written ++ '>' :: s
      have whole : (((name, v) :: rest).flatMap Markup.written ++ '>' :: s) =
          ' ' :: c :: (more ++ '=' :: '"' :: (Markup.value v ++ '"' :: final)) := by
        simp [Markup.written, spelled, final]
      have inside : ∀ x ∈ more, (!Text.isBlank x && x != '/' && x != '=' && x != '>') = true := fun x member => by
        obtain ⟨solid, slash, equals, bracket⟩ := plain x member
        simp [solid, slash, equals, bracket]
      obtain ⟨taken, left⟩ := take_through _ more '=' ('"' :: (Markup.value v ++ '"' :: final)) inside (by decide)
      have skipped := (skip_through c (more ++ '=' :: '"' :: (Markup.value v ++ '"' :: final)) solid slash).2
      have starts : ¬ (c == '>' || c == '/' || !mayPrecedeName ' ') = true := by
        have space : mayPrecedeName ' ' = true := by decide
        simp [bracket, slash, space]
      rw [whole, attributes, skipped]
      dsimp only
      have spaced (rest : Chars) : rest.length < (' ' :: rest).length := Nat.lt_succ_self _
      rw [if_pos (spaced _), if_neg starts, taken, left]
      rw [Text.drop_none Text.isBlank _ (by rfl), quoted_value_read]
      dsimp only
      rw [ih others fuel (Nat.lt_of_succ_lt_succ enough), value_read, ← spelled, named.lower]

/-! Whole tags -/

theorem word_in_name (c : Char) (word : Text.isWord c = true) : endsName c = false := by
  have ending : ['\t', '\n', '\r', '\x0c', ' ', '/', '>', '\x00'].all (!Text.isWord ·) = true := by decide
  rw [Bool.eq_false_iff]
  intro ends
  have other := List.all_eq_true.mp ending c (List.contains_iff_mem.mp ends)
  rw [word] at other
  cases other

theorem word_solid (c : Char) (word : Text.isWord c = true) : Text.isBlank c = false :=
  Text.solid_class Text.isWord (by decide +kernel) c word

theorem name_read (name : Chars) (words : ∀ c ∈ name, Text.isWord c = true) (c : Char) (s : Chars)
    (ends : endsName c = true) :
    (name ++ c :: s).takeWhile (fun c => !endsName c) = name ∧
      (name ++ c :: s).dropWhile (fun c => !endsName c) = c :: s := by
  refine take_through _ name c s (fun x member => ?_) (by rw [ends]; rfl)
  rw [word_in_name x (words x member)]
  rfl

-- No character of a word is one of the marks that other markup begins with.
theorem word_markup (c : Char) (word : Text.isWord c = true) (s : Chars) :
    markup ('<' :: c :: s) = if Text.isAsciiLetter c then startTag (c :: s) else .token (.text ['<']) 1 := by
  unfold markup
  split
  · rename_i same
    obtain ⟨-, rfl, -⟩ := List.cons.inj same |>.imp_right List.cons.inj
    cases word
  · rename_i same
    obtain ⟨-, rfl, -⟩ := List.cons.inj same |>.imp_right List.cons.inj
    cases word
  · rename_i same
    obtain ⟨-, rfl, -⟩ := List.cons.inj same |>.imp_right List.cons.inj
    cases word
  · rename_i same
    obtain ⟨-, rfl, rfl⟩ := List.cons.inj same |>.imp_right List.cons.inj
    rfl
  · rename_i other
    exact absurd rfl (other _ _ _)

theorem start_tag_read (name : String) (attrs : Attrs) (named : IsTagName name) (names : ∀ a ∈ attrs, IsAttrName a.1)
    (letter : name.toList.head?.any Text.isAsciiLetter = true) (s : Chars) :
    markup (Markup.startTag name attrs ++ s) =
      .token (.startTag name attrs false) (Markup.startTag name attrs).length := by
  obtain ⟨c, more, spelled⟩ := List.exists_cons_of_ne_nil named.some
  rw [spelled] at letter
  let behind := attrs.flatMap Markup.written ++ '>' :: s
  have whole : Markup.startTag name attrs ++ s = '<' :: c :: (more ++ behind) := by
    simp [Markup.startTag, spelled, behind]
  have back : c :: (more ++ behind) = name.toList ++ behind := by rw [spelled]; rfl
  obtain ⟨x, rest, next, ends⟩ : ∃ x rest, behind = x :: rest ∧ endsName x = true := by
    cases attrs with
    | nil => exact ⟨'>', s, rfl, by decide⟩
    | cons a others => exact ⟨' ', _, rfl, by decide⟩
  obtain ⟨taken, left⟩ := name_read name.toList named.word x rest ends
  rw [← next] at taken left
  have enough : attrs.length < (name.toList ++ behind).length + 1 := by
    have short := written_length attrs
    simp only [behind, List.length_append]
    omega
  have word : Text.isWord c = true := named.word c (spelled ▸ List.mem_cons_self)
  have letter : Text.isAsciiLetter c = true := letter
  rw [whole, word_markup c word, if_pos letter, back, startTag, taken, left,
    attributes_read attrs names _ enough 'x' s]
  rw [named.lower]
  change Read.token _ ((name.toList ++ behind).length - ('>' :: s).length + 1 + 1) = _
  refine congrArg (Read.token _) ?_
  simp only [behind, Markup.startTag, List.length_append, List.length_cons, List.length_nil]
  omega

/-- The characters of a name that an end tag may have in front of white space. -/
def isNamePart (c : Char) : Bool :=
  Text.isAsciiLetter c || Text.isAsciiDigit c || c == '-' || c == '.' || c == ':' || c == '_'

theorem bracket_found (name : Chars) (s : Chars) : (toBracket (name ++ '>' :: s)).isSome = true := by
  induction name with
  | nil => rfl
  | cons c name ih =>
      rw [List.cons_append, toBracket, endOf?]
      split
      · rfl
      · rwa [Option.isSome_map]

-- What follows the name after white space, as end tags are read first.
def afterName (s : Chars) : Chars := (s.dropWhile isNamePart).dropWhile Text.isBlank

theorem end_tag_closed (s : Chars) (found : (toBracket s).isSome = true) (c : Char) (rest : Chars)
    (starts : s.dropWhile Text.isBlank = c :: rest) (letter : Text.isAsciiLetter c = true)
    (closed : (afterName rest).head? = some '>') :
    endTag s =
      .token (.endTag (lowerText (c :: rest.takeWhile isNamePart))) (s.length - (afterName rest).length + 3) := by
  obtain ⟨n, found⟩ := Option.isSome_iff_exists.mp found
  have read : (Text.isAsciiLetter c && (afterName rest).head? == some '>') = true := by rw [letter, closed]; rfl
  unfold endTag
  rw [found, starts]
  exact if_pos read

theorem end_tag_open (c : Char) (s : Chars) (solid : Text.isBlank c = false) (letter : Text.isAsciiLetter c = true)
    (found : (toBracket (c :: s)).isSome = true) (unclosed : (afterName s).head? ≠ some '>') :
    endTag (c :: s) =
      (let rest := skipBetween ((c :: s).dropWhile fun x => !endsName x)
       match toBracket rest with
       | some n => .token (.endTag (lowerText ((c :: s).takeWhile fun x => !endsName x)))
           ((c :: s).length - rest.length + n + 2)
       | none => .nothing 0) := by
  obtain ⟨n, found⟩ := Option.isSome_iff_exists.mp found
  have starts : (c :: s).dropWhile Text.isBlank = c :: s :=
    List.dropWhile_cons_of_neg (Bool.eq_false_iff.mp solid)
  have unread : ¬ (Text.isAsciiLetter c && (afterName s).head? == some '>') = true := by simp [unclosed]
  unfold endTag
  rw [found, starts]
  refine (if_neg unread).trans ?_
  split
  · rename_i same
    obtain ⟨rfl, -⟩ := List.cons.inj same
    cases letter
  · rename_i same
    obtain ⟨rfl, -⟩ := List.cons.inj same
    exact if_pos letter
  · rename_i same
    cases same

-- A name past ASCII is read by another branch, with the same result.
theorem end_tag_read (name : String) (named : IsTagName name)
    (letter : name.toList.head?.any Text.isAsciiLetter = true) (s : Chars) :
    endTag (name.toList ++ '>' :: s) = .token (.endTag name) (Markup.endTag name).length := by
  obtain ⟨c, more, spelled⟩ := List.exists_cons_of_ne_nil named.some
  rw [spelled] at letter
  have letter : Text.isAsciiLetter c = true := letter
  obtain ⟨first, words⟩ := List.forall_mem_cons.mp (spelled ▸ named.word)
  have solid := word_solid c first
  have found := bracket_found name.toList s
  have lower := named.lower
  have length : (Markup.endTag name).length = more.length + 4 := by simp [Markup.endTag, spelled]
  by_cases part : ∀ x ∈ more, isNamePart x = true
  · obtain ⟨run, rest⟩ := take_through isNamePart more '>' s part (by decide)
    have after : afterName (more ++ '>' :: s) = '>' :: s := by
      rw [afterName, rest]
      rfl
    rw [spelled, List.cons_append] at found ⊢
    rw [end_tag_closed _ found c _ (List.dropWhile_cons_of_neg (Bool.eq_false_iff.mp solid)) letter
      (by rw [after]; rfl), run, ← spelled, lower, after, length]
    refine congrArg (Read.token _) ?_
    simp only [List.length_append, List.length_cons]
    omega
  · have unclosed : (afterName (more ++ '>' :: s)).head? ≠ some '>' := by
      rw [afterName, List.dropWhile_append]
      cases rest : more.dropWhile isNamePart with
      | nil => exact absurd (List.dropWhile_eq_nil_iff.mp rest) part
      | cons x back =>
          have word : Text.isWord x = true :=
            words x ((List.dropWhile_sublist isNamePart).subset (rest ▸ List.mem_cons_self))
          rw [if_neg (by simp), List.cons_append,
            List.dropWhile_cons_of_neg (Bool.eq_false_iff.mp (word_solid x word))]
          rintro ⟨⟩
          cases word
    obtain ⟨taken, left⟩ := name_read name.toList named.word '>' s (by decide)
    have bracket := (skip_through '>' s (by decide) (by decide)).1
    rw [spelled, List.cons_append] at found taken left ⊢
    rw [end_tag_open c _ solid letter found unclosed, left, taken, bracket, ← spelled, lower, length]
    change Read.token _ ((c :: (more ++ '>' :: s)).length - ('>' :: s).length + 1 + 2) = _
    refine congrArg (Read.token _) ?_
    simp only [List.length_append, List.length_cons]
    omega

end Downmark.Html
