import Downmark.Html.Builder
import Downmark.Proofs.TagTexts
/-!
Reading HTML step by step. A step takes one token off the text and gives it to the tree that is being built. Main
statements: a reader comes past text, references and tags as they are written, and past raw text at its first end tag.
-/

set_option autoImplicit false

namespace Downmark.Html

/-- A text part of the way through. -/
structure Reader where
  /-- The element whose raw text comes next. -/
  raw : Option String := none
  rest : Chars
  made : Builder

/-- What is built in the end, by at most `fuel` steps of the first reading. -/
def Reader.run (fuel : Nat) (r : Reader) : Builder :=
  let first := scan false fuel r.raw r.rest
  let second := scan true (first.rest.length + 1) first.raw first.rest
  (first.tokens ++ second.tokens).foldl Builder.token r.made

/-- Going on from one place is going on from another one, as long as there is fuel for every character. -/
def Leads (here there : Reader) : Prop :=
  ∀ fuel, here.rest.length < fuel → ∃ left, there.rest.length < left ∧ here.run fuel = there.run left

theorem read_run (s : Chars) : read s = (Reader.run (s.length + 1) ⟨none, s, {}⟩).finish := rfl

theorem run_end (fuel : Nat) (b : Builder) : Reader.run (fuel + 1) ⟨none, [], b⟩ = b := rfl

theorem leads_refl (r : Reader) : Leads r r := fun fuel enough => ⟨fuel, enough, rfl⟩

theorem leads_trans (first second third : Reader) (before : Leads first second) (after : Leads second third) :
    Leads first third := by
  intro fuel enough
  obtain ⟨left, more, same⟩ := before fuel enough
  obtain ⟨less, still, rest⟩ := after left more
  exact ⟨less, still, same.trans rest⟩

section

variable (b : Builder)

theorem text_append (s t : Chars) : (b.text s).text t = b.text (s ++ t) := by
  simp [Builder.text]

/-! Steps -/

theorem run_push (fuel left : Nat) (here there : Reader) (t : Token) (made : there.made = here.made.token t)
    (step : scan false fuel here.raw here.rest = (scan false left there.raw there.rest).push t) :
    here.run fuel = there.run left := by
  unfold Reader.run
  rw [step, made]
  rfl

theorem step_leads (here there : Reader) (t : Token) (made : there.made = here.made.token t)
    (shorter : there.rest.length < here.rest.length)
    (step : ∀ fuel, scan false (fuel + 1) here.raw here.rest = (scan false fuel there.raw there.rest).push t) :
    Leads here there := by
  intro fuel enough
  obtain ⟨fuel, rfl⟩ : ∃ n, fuel = n + 1 := ⟨fuel - 1, by omega⟩
  exact ⟨fuel, by omega, run_push (fuel + 1) fuel here there t made (step fuel)⟩

-- The text before a mark is read at once, so no fuel is used up for a character of it.
theorem plain_leads (c : Char) (s : Chars) (bracket : c ≠ '<') (ampersand : c ≠ '&') :
    Leads ⟨none, c :: s, b⟩ ⟨none, s, b.text [c]⟩ := by
  intro fuel enough
  obtain ⟨fuel, rfl⟩ : ∃ n, fuel = n + 1 := ⟨fuel - 1, by omega⟩
  refine ⟨fuel + 1, Nat.lt_of_succ_lt enough, ?_⟩
  have passed : (c != '<' && c != '&') = true := by simp [bracket, ampersand]
  let plain := s.takeWhile fun c => c != '<' && c != '&'
  obtain ⟨r, here, there⟩ : ∃ r, scan false (fuel + 1) none (c :: s) = Reading.pushText (c :: plain) r ∧
      scan false (fuel + 1) none s = Reading.pushText plain r := by
    refine ⟨_, ?_, rfl⟩
    rw [scan, List.takeWhile_cons, if_pos passed, List.dropWhile_cons, if_pos passed]
  unfold Reader.run
  rw [here, there]
  cases plain with
  | nil => rfl
  | cons x more =>
      have same : b.token (.text (c :: x :: more)) = (b.text [c]).token (.text (x :: more)) :=
        (text_append b [c] (x :: more)).symm
      change List.foldl _ (b.token (.text (c :: x :: more))) (r.tokens ++ _) =
        List.foldl _ ((b.text [c]).token (.text (x :: more))) (r.tokens ++ _)
      rw [same]
      rfl

theorem text_char_leads (c : Char) (s : Chars) : Leads ⟨none, Markup.textChar c ++ s, b⟩ ⟨none, s, b.text [c]⟩ := by
  have shorter (name : Chars) : s.length < (name ++ s).length + 1 := by
    rw [List.length_append]
    omega
  unfold Markup.textChar
  by_cases ampersand : c = '&'
  · subst ampersand
    exact step_leads _ _ (.text ['&']) rfl (shorter "amp;".toList) fun _ => rfl
  by_cases opening : c = '<'
  · subst opening
    exact step_leads _ _ (.text ['<']) rfl (shorter "lt;".toList) fun _ => rfl
  by_cases closing : c = '>'
  · subst closing
    exact step_leads _ _ (.text ['>']) rfl (shorter "gt;".toList) fun _ => rfl
  · rw [if_neg (by simpa using ampersand), if_neg (by simpa using opening), if_neg (by simpa using closing)]
    exact plain_leads b c s opening ampersand

theorem text_leads (data : Chars) (some : data ≠ []) (s : Chars) :
    Leads ⟨none, Markup.text data ++ s, b⟩ ⟨none, s, b.text data⟩ := by
  induction data generalizing b with
  | nil => exact absurd rfl some
  | cons c rest ih =>
      have whole : Markup.text (c :: rest) ++ s = Markup.textChar c ++ (Markup.text rest ++ s) := by
        rw [Markup.text, List.flatMap_cons, List.append_assoc]
        rfl
      rw [whole]
      refine leads_trans _ _ _ (text_char_leads b c _) ?_
      cases rest with
      | nil => exact leads_refl _
      | cons x more =>
          have after := ih (b.text [c]) (List.cons_ne_nil _ _)
          rwa [text_append] at after

/-- The element whose raw text comes after a token. -/
def rawAfter : Token → Option String
  | .startTag tag _ selfClosed => if !selfClosed && rawNames.contains tag then some tag else none
  | _ => none

theorem markup_leads (more s : Chars) (t : Token) (length : Nat) (some : 0 < length)
    (read : markup ('<' :: more) = .token t length) (left : ('<' :: more).drop length = s) :
    Leads ⟨none, '<' :: more, b⟩ ⟨rawAfter t, s, b.token t⟩ := by
  subst left
  refine step_leads _ _ t rfl ?_ fun fuel => ?_
  · simp only [List.length_drop, List.length_cons]
    omega
  · have stops : ('<' :: more).dropWhile (fun c => c != '<' && c != '&') = '<' :: more := rfl
    dsimp only
    rw [scan, stops]
    split
    · rename_i same
      cases same
    · rename_i same
      obtain ⟨-, rfl⟩ := List.cons.inj same
      dsimp only
      rw [read]
      cases t <;> rfl
    all_goals
      rename_i same
      cases same
      contradiction

theorem start_tag_leads (name : String) (attrs : Attrs) (named : IsTagName name) (names : ∀ a ∈ attrs, IsAttrName a.1)
    (letter : name.toList.head?.any Text.isAsciiLetter = true) (s : Chars) :
    Leads ⟨none, Markup.startTag name attrs ++ s, b⟩
      ⟨if rawNames.contains name then some name else none, s, b.startTag name attrs false⟩ :=
  markup_leads b _ s _ _ (Nat.succ_pos _) (start_tag_read name attrs named names letter s) List.drop_left

theorem end_tag_leads (name : String) (named : IsTagName name)
    (letter : name.toList.head?.any Text.isAsciiLetter = true) (s : Chars) :
    Leads ⟨none, Markup.endTag name ++ s, b⟩ ⟨none, s, b.endTag name⟩ := by
  have whole : Markup.endTag name ++ s = '<' :: '/' :: (name.toList ++ '>' :: s) := by simp [Markup.endTag]
  have left : ('<' :: '/' :: (name.toList ++ '>' :: s)).drop (Markup.endTag name).length = s := by
    rw [← whole, List.drop_left]
  rw [whole]
  exact markup_leads b _ s (.endTag name) _ (Nat.succ_pos _) (end_tag_read name named letter s) left

-- A bracket before any character but a letter, a slash, an exclamation mark and a question mark is text.
theorem bracket_leads (c : Char) (s : Chars) (letter : Text.isAsciiLetter c = false) (word : Text.isWord c = true) :
    Leads ⟨none, '<' :: c :: s, b⟩ ⟨none, c :: s, b.text ['<']⟩ := by
  refine markup_leads b _ _ (.text ['<']) 1 Nat.one_pos ?_ rfl
  rw [word_markup c word, letter, if_neg Bool.false_ne_true]

/-! Raw text -/

/-- A piece of text, if there is any. -/
def pieceOf (b : Builder) (s : Chars) : Builder := if s.isEmpty then b else b.text s

theorem raw_leads (name : String) (s : Chars) (n length : Nat) (ends : rawLength name.toList s = some n)
    (taken : 0 < length) (read : endTag ((s.drop n).drop 2) = .token (.endTag name) length) :
    Leads ⟨some name, s, b⟩ ⟨none, (s.drop n).drop length, (pieceOf b (s.take n)).endTag name⟩ := by
  intro fuel enough
  obtain ⟨fuel, rfl⟩ : ∃ n, fuel = n + 1 := ⟨fuel - 1, by omega⟩
  refine ⟨fuel, ?_, ?_⟩
  · have some : 0 < s.length := by
      cases s with
      | nil => cases ends
      | cons => exact Nat.succ_pos _
    simp only [List.length_drop] at enough ⊢
    omega
  · have step : scan false (fuel + 1) (some name) s =
        Reading.pushText (s.take n) ((scan false fuel none ((s.drop n).drop length)).push (.endTag name)) := by
      rw [scan, ends]
      dsimp only
      rw [read]
    unfold Reader.run
    dsimp only
    rw [step, pieceOf]
    cases s.take n <;> rfl

end

end Downmark.Html
