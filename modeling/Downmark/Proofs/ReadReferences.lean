import Downmark.Options.Choice
import Downmark.Reference.Collector
import Downmark.Proofs.Flanking
import Downmark.Proofs.Spelled
import Downmark.Proofs.Stacked
import Downmark.Proofs.Collapsed
/-!
Reading the references of some Markdown, from left to right: text in brackets leads to a label, which is the text in
the brackets right behind it, or the text itself if there are none or they are empty. At the start of a line, text in
brackets and a colon make a definition. Main statement: from references that are written with nothing in brackets
around them, just their labels are read, if nothing that comes right behind a reference without a label is taken for
one, or for the colon of a definition.
-/

set_option autoImplicit false

namespace Downmark.Reference

-- What stands before the next bracket that no backslash takes its meaning from, if it is a closing one, and what
-- comes after it; `slashed` tells of a backslash right before the text.
def bracketedFrom (slashed : Bool) : Chars → Option (Chars × Chars)
  | [] => none
  | c :: s =>
    if !slashed && c == ']' then some ([], s)
    else if !slashed && c == '[' then none
    else (bracketedFrom (!slashed && c == '\\') s).map fun (text, rest) => (c :: text, rest)

def bracketed? (s : Chars) : Option (Chars × Chars) := bracketedFrom false s

-- The label of a reference, and what comes after it; the text comes after the opening bracket.
def reference? (s : Chars) : Option (Chars × Chars) :=
  match bracketed? s with
  | none => none
  | some (text, rest) =>
    if rest.head? == some '[' then
      match bracketed? rest.tail with
      | none => some (text, rest)
      | some (label, rest) => some (if label.isEmpty then text else label, rest)
    else some (text, rest)

-- What comes after the line of a definition, if the text begins one after its opening bracket.
def definition? (s : Chars) : Option Chars :=
  match bracketed? s with
  | none => none
  | some (_, rest) => if rest.head? == some ':' then some (rest.dropWhile (· != '\n')) else none

theorem bracketed_shorter (slashed : Bool) (s text rest : Chars) (found : bracketedFrom slashed s = some (text, rest)) :
    rest.length < s.length := by
  induction s generalizing slashed text with
  | nil => cases found
  | cons c s ih =>
      rw [bracketedFrom] at found
      split at found
      · cases found
        exact Nat.lt_succ_self _
      · split at found
        · cases found
        · obtain ⟨⟨inner, after⟩, deeper, same⟩ := Option.map_eq_some_iff.mp found
          cases same
          exact Nat.lt_succ_of_lt (ih _ inner deeper)

theorem reference_shorter (s label rest : Chars) (found : reference? s = some (label, rest)) :
    rest.length < s.length := by
  unfold reference? at found
  split at found
  · cases found
  · rename_i text behind first
    have shorter := bracketed_shorter false s text behind first
    split at found
    · split at found
      · cases found
        exact shorter
      · rename_i second
        cases found
        have again := bracketed_shorter false _ _ _ second
        have tail : behind.tail.length ≤ behind.length := by simp
        omega
    · cases found
      exact shorter

theorem definition_shorter (s rest : Chars) (found : definition? s = some rest) : rest.length < s.length := by
  unfold definition? at found
  split at found
  · cases found
  · rename_i text behind first
    split at found
    · cases found
      exact Nat.lt_of_le_of_lt (List.dropWhile_suffix _).length_le (bracketed_shorter false s text behind first)
    · cases found

-- The labels that the references of some Markdown lead to; `start` tells that it stands at the start of a line.
def references (start : Bool) : Chars → List Chars
  | [] => []
  | c :: s =>
    if c == '\\' then references false (s.drop 1)
    else if c == '[' then
      match _defined : if start then definition? s else none with
      | some rest => references false rest
      | none =>
        match _found : reference? s with
        | some (label, rest) => label :: references false rest
        | none => references false s
    else references (c == '\n') s
termination_by s => s.length
decreasing_by
  · simp only [List.length_drop, List.length_cons]
    omega
  · split at _defined
    · exact Nat.lt_succ_of_lt (definition_shorter s rest _defined)
    · cases _defined
  · exact Nat.lt_succ_of_lt (reference_shorter s label rest _found)
  · exact Nat.lt_succ_self _
  · exact Nat.lt_succ_self _

-- Text without a bracket that means something, with no white space but spaces.
inductive Muted : Chars → Prop where
  | nil : Muted []
  | plain (c : Char) (s : Chars) (other : c ∉ ['\\', '[', ']']) (spaced : Whitespace.isCollapsible c → c = ' ')
      (rest : Muted s) : Muted (c :: s)
  | slashed (c : Char) (s : Chars) (solid : Text.isBlank c = false) (rest : Muted s) : Muted ('\\' :: c :: s)

theorem other_bare (c : Char) (other : c ∉ ['\\', '[', ']']) : c ≠ '\\' ∧ c ≠ '[' ∧ c ≠ ']' := by simpa using other

theorem muted_append (s t : Chars) (first : Muted s) (next : Muted t) : Muted (s ++ t) := by
  induction first with
  | nil => exact next
  | plain c s other spaced _ ih => exact .plain c _ other spaced ih
  | slashed c s solid _ ih => exact .slashed c _ solid ih

theorem solid_spaced (c : Char) (s : Chars) (solid : Text.isBlank c = false) (spaced : Spaced s) : Spaced (c :: s) := by
  refine List.forall_mem_cons.mpr ⟨fun blank => ?_, spaced⟩
  rw [Whitespace.solid_uncollapsible c solid] at blank
  cases blank

theorem muted_spaced (s : Chars) (muted : Muted s) : Spaced s := by
  induction muted with
  | nil => simp [Spaced]
  | plain c s _ spaced _ ih => exact List.forall_mem_cons.mpr ⟨spaced, ih⟩
  | slashed c s solid _ ih => exact solid_spaced '\\' _ rfl (solid_spaced c s solid ih)

-- A blank character is never behind a backslash, so a text can be cut before it.
theorem muted_cut (s t : Chars) (muted : Muted (s ++ t)) (blank : ∀ c ∈ t.head?, Text.isBlank c = true) : Muted s := by
  generalize whole : s ++ t = u at muted
  induction muted generalizing s with
  | nil =>
      obtain ⟨rfl, -⟩ := List.append_eq_nil_iff.mp whole
      exact .nil
  | plain c u other spaced _ ih =>
      cases s with
      | nil => exact .nil
      | cons d s =>
          obtain ⟨rfl, rest⟩ := List.cons.inj whole
          exact .plain d s other spaced (ih s rest)
  | slashed c u solid _ ih =>
      cases s with
      | nil => exact .nil
      | cons d s =>
          obtain ⟨rfl, rest⟩ := List.cons.inj whole
          cases s with
          | nil =>
              have next : t = c :: u := rest
              rw [blank c (by rw [next]; rfl)] at solid
              cases solid
          | cons e s =>
              obtain ⟨rfl, last⟩ := List.cons.inj rest
              exact .slashed e s solid (ih s last)

theorem muted_head (s : Chars) (muted : Muted s) : s.head? ≠ some '[' := by
  cases muted with
  | nil => simp
  | plain c s other _ _ => simpa using (other_bare c other).2.1
  | slashed c s _ _ => simp

theorem muted_tail (c : Char) (s : Chars) (muted : Muted (c :: s)) (bare : c ≠ '\\') : Muted s := by
  cases muted with
  | plain _ _ _ _ rest => exact rest
  | slashed => exact absurd rfl bare

theorem muted_behind (s t : Chars) (muted : Muted (s ++ t)) (unslashed : '\\' ∉ s) : Muted t := by
  induction s with
  | nil => exact muted
  | cons c s ih =>
      simp only [List.mem_cons, not_or] at unslashed
      exact ih (muted_tail c _ muted fun same => unslashed.1 same.symm) unslashed.2

theorem special_solid (c : Char) (w : Chars) (reason : c ∈ Escape.inlineSpecial ∨ Escape.opensMarkup c w = true ∨
    c ∈ Escape.lineSpecial) : Text.isBlank c = false := by
  have listed : ∀ c ∈ Escape.inlineSpecial ++ Escape.lineSpecial ++ ['<', '&'], Text.isBlank c = false := by
    simp [Escape.inlineSpecial, Escape.lineSpecial, Text.isBlank]
  refine listed c ?_
  rcases reason with inline | opens | line
  · simp [inline]
  · rcases Escape.opens_markup_char c w opens with rfl | rfl
    · simp
    · simp
  · simp [line]

theorem spelled_muted (start : Bool) (s w : Chars) (spelled : Escape.Spelled Escape.inlineSpecial start s w)
    (spaced : Spaced s) : Muted w := by
  have escaped : ∀ c ∈ ['\\', '[', ']'], c ∈ Escape.inlineSpecial := by simp [Escape.inlineSpecial]
  induction spelled with
  | nil => exact .nil
  | plain start c s w common _ _ ih =>
      obtain ⟨own, others⟩ := List.forall_mem_cons.mp spaced
      exact .plain c w (fun listed => common (escaped c listed)) own (ih others)
  | slashed start c s w reason _ ih =>
      obtain ⟨-, others⟩ := List.forall_mem_cons.mp spaced
      exact .slashed c w (special_solid c w (reason.imp_right (Or.imp_right And.right))) (ih others)

theorem bracketed_muted (text rest : Chars) (muted : Muted text) :
    bracketed? (text ++ ']' :: rest) = some (text, rest) := by
  unfold bracketed?
  induction muted with
  | nil => rfl
  | plain c s other _ _ ih =>
      have bare := other_bare c other
      have unslashed : (c == '\\') = false := by simpa using bare.1
      simp [bracketedFrom, bare, unslashed, ih]
  | slashed c s _ _ ih => simp [bracketedFrom, ih]

theorem references_muted (start : Bool) (words rest : Chars) (muted : Muted words) :
    references start (words ++ rest) = references (start && words.isEmpty) rest := by
  induction muted generalizing start with
  | nil => simp
  | plain c s other spaced _ ih =>
      have bare := other_bare c other
      have inside : (c == '\n') = false := by
        rw [beq_eq_false_iff_ne]
        rintro rfl
        exact absurd (spaced rfl) (by decide)
      rw [List.cons_append, references, if_neg (by simpa using bare.1), if_neg (by simpa using bare.2.1), inside, ih]
      simp
  | slashed c s _ _ ih =>
      have next : references start ('\\' :: c :: (s ++ rest)) = references false (s ++ rest) := by
        rw [references, if_pos (by rfl), List.drop_succ_cons, List.drop_zero]
      rw [List.cons_append, List.cons_append, next, ih]
      simp

-- What can be read between brackets, as the text of a reference or as its label.
structure Readable (s : Chars) : Prop where
  muted : Muted s
  some : s ≠ []

-- A reference with the words before it, and the definition that it leads to.
structure Citation where
  words : Chars
  text : Chars
  label : Chars
  url : Chars
  title : Option Chars

namespace Citation

-- What is written behind the text of a reference: its label, if that is not the text.
def suffix (style : LabelStyle) (cited : Citation) : Chars :=
  if cited.label != cited.text then '[' :: cited.label ++ [']']
  else if style = .collapsed then ['[', ']']
  else []

def link (cited : Citation) : Link := { label := cited.label, url := cited.url, title := cited.title }

structure Quiet (cited : Citation) : Prop where
  words : Muted cited.words
  text : Readable cited.text

end Citation

-- Some references, one after the other, and what is written behind the last one.
def layout (style : LabelStyle) : List Citation → Chars → Chars
  | [], ending => ending
  | cited :: rest, ending =>
    cited.words ++ '[' :: (cited.text ++ ']' :: (cited.suffix style ++ layout style rest ending))

-- Behind a reference that ends with its text comes no bracket, and no colon either if the line begins with it.
def Clear (style : LabelStyle) (start : Bool) : List Citation → Chars → Prop
  | [], _ => True
  | cited :: rest, ending =>
    (cited.suffix style = [] → (layout style rest ending).head? ≠ some '[' ∧
      (start = true → cited.words = [] → (layout style rest ending).head? ≠ some ':')) ∧
    Clear style false rest ending

theorem references_bracket (start : Bool) (s label rest : Chars) (plain : start = true → definition? s = none)
    (found : reference? s = some (label, rest)) : references start ('[' :: s) = label :: references false rest := by
  have undefined : (if start then definition? s else none) = none := by
    cases start with
    | false => rfl
    | true => exact plain rfl
  rw [references, if_neg (by decide), if_pos (by rfl)]
  split
  · rename_i defined
    rw [undefined] at defined
    cases defined
  · split
    · rename_i read
      rw [found] at read
      cases read
      rfl
    · rename_i none
      rw [found] at none
      cases none

theorem suffix_cases (style : LabelStyle) (cited : Citation) :
    cited.suffix style = '[' :: cited.label ++ [']'] ∨
      cited.label = cited.text ∧ (cited.suffix style = ['[', ']'] ∨ cited.suffix style = []) := by
  by_cases same : cited.label = cited.text
  · by_cases collapsed : style = .collapsed
    · exact .inr ⟨same, .inl (by simp [Citation.suffix, same, collapsed])⟩
    · exact .inr ⟨same, .inr (by simp [Citation.suffix, same, collapsed])⟩
  · exact .inl (by simp [Citation.suffix, same])

theorem reference_read (style : LabelStyle) (cited : Citation) (quiet : cited.Quiet) (labelled : Readable cited.label)
    (rest : Chars) (apart : cited.suffix style = [] → rest.head? ≠ some '[') :
    reference? (cited.text ++ ']' :: (cited.suffix style ++ rest)) = some (cited.label, rest) := by
  have text := bracketed_muted cited.text (cited.suffix style ++ rest) quiet.text.muted
  rcases suffix_cases style cited with whole | ⟨same, empty | bare⟩
  · have label := bracketed_muted cited.label rest labelled.muted
    have named : cited.label.isEmpty = false := by simpa using labelled.some
    rw [whole] at text ⊢
    rw [reference?, text]
    simp [label, named]
  · rw [empty] at text ⊢
    rw [reference?, text]
    simp [bracketed?, bracketedFrom, same]
  · have other : (rest.head? == some '[') = false := by simpa using apart bare
    rw [bare] at text ⊢
    rw [reference?, text]
    simp [other, same]

theorem no_definition (style : LabelStyle) (cited : Citation) (quiet : cited.Quiet) (rest : Chars)
    (apart : cited.suffix style = [] → rest.head? ≠ some ':') :
    definition? (cited.text ++ ']' :: (cited.suffix style ++ rest)) = none := by
  have text := bracketed_muted cited.text (cited.suffix style ++ rest) quiet.text.muted
  rcases suffix_cases style cited with whole | ⟨-, empty | bare⟩
  · rw [whole] at text ⊢
    rw [definition?, text]
    rfl
  · rw [empty] at text ⊢
    rw [definition?, text]
    rfl
  · have other : (rest.head? == some ':') = false := by simpa using apart bare
    rw [bare] at text ⊢
    rw [definition?, text]
    simp [other]

-- At the end there are only words, and nothing is read from them.
theorem references_words (start : Bool) (words : Chars) (muted : Muted words) : references start words = [] := by
  have read := references_muted start words [] muted
  rw [List.append_nil] at read
  rw [read, references]

theorem references_layout (style : LabelStyle) (start : Bool) (cites : List Citation) (ending : Chars)
    (quiet : ∀ cited ∈ cites, cited.Quiet) (labelled : ∀ cited ∈ cites, Readable cited.label) (muted : Muted ending)
    (clear : Clear style start cites ending) :
    references start (layout style cites ending) = cites.map Citation.label := by
  induction cites generalizing start with
  | nil => exact references_words start ending muted
  | cons cited rest ih =>
      obtain ⟨own, others⟩ := List.forall_mem_cons.mp quiet
      obtain ⟨named, labels⟩ := List.forall_mem_cons.mp labelled
      obtain ⟨apart, later⟩ := clear
      have read := reference_read style cited own named _ fun bare => (apart bare).1
      rw [layout, references_muted start _ _ own.words, references_bracket _ _ _ _ ?_ read,
        ih false others labels later, List.map_cons]
      intro first
      obtain ⟨begins, nothing⟩ := (Bool.and_eq_true _ _).mp first
      exact no_definition style cited own _ fun bare => (apart bare).2 begins (List.isEmpty_iff.mp nothing)

-- No reference ends with its text where brackets stand behind all of them.
theorem collapsed_clear (start : Bool) (cites : List Citation) (ending : Chars) :
    Clear .collapsed start cites ending := by
  induction cites generalizing start with
  | nil => trivial
  | cons cited rest ih =>
      refine ⟨fun bare => ?_, ih false⟩
      unfold Citation.suffix at bare
      split at bare
      · cases bare
      · cases bare

theorem worded_head (style : LabelStyle) (cites : List Citation) (ending : Chars) (quiet : ∀ cited ∈ cites, cited.Quiet)
    (worded : ∀ cited ∈ cites, cited.words ≠ []) (muted : Muted ending) :
    (layout style cites ending).head? ≠ some '[' := by
  cases cites with
  | nil => exact muted_head ending muted
  | cons cited rest =>
      have first := muted_head cited.words (quiet cited List.mem_cons_self).words
      obtain ⟨c, words, same⟩ := List.exists_cons_of_ne_nil (worded cited List.mem_cons_self)
      rw [same] at first
      rw [layout, same]
      exact first

-- Nor is anything taken for a label where words come before each reference.
theorem worded_clear (style : LabelStyle) (start : Bool) (cites : List Citation) (ending : Chars)
    (quiet : ∀ cited ∈ cites, cited.Quiet) (worded : ∀ cited ∈ cites, cited.words ≠ []) (muted : Muted ending) :
    Clear style start cites ending := by
  induction cites generalizing start with
  | nil => trivial
  | cons cited rest ih =>
      obtain ⟨-, others⟩ := List.forall_mem_cons.mp quiet
      obtain ⟨own, later⟩ := List.forall_mem_cons.mp worded
      have head := worded_head style rest ending others later muted
      exact ⟨fun _ => ⟨head, fun _ none => absurd none own⟩, ih false others later⟩

theorem layout_append (style : LabelStyle) (first later : List Citation) (ending : Chars) :
    layout style (first ++ later) ending = layout style first (layout style later ending) := by
  induction first with
  | nil => rfl
  | cons cited rest ih => rw [List.cons_append, layout, ih, layout]

theorem layout_ending (style : LabelStyle) (cites : List Citation) (words more : Chars) :
    layout style cites (words ++ more) = layout style cites words ++ more := by
  induction cites with
  | nil => rfl
  | cons cited rest ih => simp [layout, ih]

theorem suffix_spaced (style : LabelStyle) (cited : Citation) (labelled : Readable cited.label) :
    Spaced (cited.suffix style) := by
  have closing : Spaced [']'] := solid_spaced ']' [] rfl (muted_spaced [] .nil)
  rcases suffix_cases style cited with whole | ⟨-, empty | bare⟩
  · rw [whole]
    exact Render.spaced_append _ _ (solid_spaced _ _ rfl (muted_spaced _ labelled.muted)) closing
  · rw [empty]
    exact solid_spaced _ _ rfl closing
  · rw [bare]
    exact muted_spaced [] .nil

theorem layout_spaced (style : LabelStyle) (cites : List Citation) (ending : Chars)
    (quiet : ∀ cited ∈ cites, cited.Quiet) (labelled : ∀ cited ∈ cites, Readable cited.label) (muted : Muted ending) :
    Spaced (layout style cites ending) := by
  induction cites with
  | nil => exact muted_spaced ending muted
  | cons cited rest ih =>
      obtain ⟨own, others⟩ := List.forall_mem_cons.mp quiet
      obtain ⟨named, labels⟩ := List.forall_mem_cons.mp labelled
      have later := Render.spaced_append _ _ (suffix_spaced style cited named) (ih others labels)
      have text := Render.spaced_append _ _ (muted_spaced _ own.text.muted) (solid_spaced ']' _ rfl later)
      exact Render.spaced_append _ _ (muted_spaced _ own.words) (solid_spaced '[' _ rfl text)

theorem trim_behind (p : Char → Bool) (front s : Chars) (c : Char) (solid : p c = false) :
    Text.trimEnd p (front ++ c :: s) = front ++ c :: Text.trimEnd p s := by
  rw [Text.trim_end_append, Whitespace.trim_end_cons _ c s (.inl solid), if_neg (by simp)]

-- References end with a bracket, so only what is behind them all is trimmed.
theorem layout_trimmed (style : LabelStyle) (cites : List Citation) (ending : Chars) :
    Text.trimEnd Text.isBlank (layout style cites ending) = layout style cites (Text.trimEnd Text.isBlank ending) := by
  induction cites with
  | nil => rfl
  | cons cited rest ih =>
      have suffix (s : Chars) : Text.trimEnd Text.isBlank (']' :: (cited.suffix style ++ s)) =
          ']' :: (cited.suffix style ++ Text.trimEnd Text.isBlank s) := by
        rcases suffix_cases style cited with whole | ⟨-, empty | bare⟩
        · rw [whole]
          simpa using trim_behind Text.isBlank (']' :: '[' :: cited.label) s ']' rfl
        · rw [empty]
          exact trim_behind _ [']', '['] s ']' rfl
        · rw [bare]
          exact trim_behind _ [] s ']' rfl
      have text := trim_behind Text.isBlank (cited.words ++ '[' :: cited.text)
        (cited.suffix style ++ layout style rest ending) ']' rfl
      simp only [List.append_assoc, List.cons_append] at text
      rw [layout, text, layout, ← ih]
      have inner := suffix (layout style rest ending)
      rw [Whitespace.trim_end_cons _ ']' _ (.inl rfl)] at inner
      rw [(List.cons.inj inner).2]

end Downmark.Reference
