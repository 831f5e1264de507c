import Downmark.Proofs.LinkParagraphs
import Downmark.Proofs.NumberedDocument
import Downmark.Proofs.OwnTargets
import Downmark.Proofs.Pipes
/-!
Where Markdown begins an image: at an exclamation mark that no backslash takes its meaning from, with a bracket right
behind it. Main statements: two pieces begin one if either does, or if one ends in the mark and the next begins with the
bracket; text that is escaped never does; and a target does, in place or in a definition, just where its address or its
title does.
-/

set_option autoImplicit false

namespace Downmark

open Escape

def CallsImage (s : Chars) : Prop := ∃ before after, s = before ++ '!' :: '[' :: after ∧ ¬ Shielded before

/-- Whether a text ends in an exclamation mark that no backslash takes its meaning from. -/
def EndsInBang (s : Chars) : Prop := ∃ before, s = before ++ ['!'] ∧ ¬ Shielded before

theorem shielded_behind (ahead s : Chars) (even : ¬ Shielded ahead) : Shielded (ahead ++ s) ↔ Shielded s :=
  shielded_append ahead [] s (iff_of_false even shielded_nil)

theorem even_append (s t : Chars) (first : ¬ Shielded s) (next : ¬ Shielded t) : ¬ Shielded (s ++ t) := by
  rwa [shielded_behind s t first]

theorem even_last (s : Chars) (c : Char) (other : c ≠ '\\') : ¬ Shielded (s ++ [c]) := by simp [shielded_last, other]

theorem bang_last (s : Chars) (c : Char) : EndsInBang (s ++ [c]) ↔ c = '!' ∧ ¬ Shielded s := by
  constructor
  · rintro ⟨before, whole, bare⟩
    obtain ⟨rfl, same⟩ := List.append_inj' whole rfl
    exact ⟨List.singleton_inj.mp same, bare⟩
  · rintro ⟨rfl, bare⟩
    exact ⟨s, rfl, bare⟩

theorem calls_append (s t : Chars) (even : ¬ Shielded s) :
    CallsImage (s ++ t) ↔ CallsImage s ∨ CallsImage t ∨ EndsInBang s ∧ t.head? = some '[' := by
  constructor
  · rintro ⟨before, after, whole, bare⟩
    rcases List.append_eq_append_iff.mp whole with ⟨x, rfl, later⟩ | ⟨x, rfl, rest⟩
    · exact .inr (.inl ⟨x, after, later, by rwa [shielded_behind s x even] at bare⟩)
    · -- The mark and the bracket lie behind the first piece, across its end, or inside of it.
      match x with
      | [] => exact .inr (.inl ⟨[], after, rest.symm, shielded_nil⟩)
      | [c] =>
          obtain ⟨rfl, next⟩ := List.cons.inj rest
          exact .inr (.inr ⟨⟨before, rfl, bare⟩, congrArg List.head? next.symm⟩)
      | c :: d :: x =>
          obtain ⟨rfl, next⟩ := List.cons.inj rest
          obtain ⟨rfl, -⟩ := List.cons.inj next
          exact .inl ⟨before, x, rfl, bare⟩
  · rintro (⟨before, after, rfl, bare⟩ | ⟨before, after, rfl, bare⟩ | ⟨⟨before, rfl, bare⟩, next⟩)
    · exact ⟨before, after ++ t, by simp, bare⟩
    · exact ⟨s ++ before, after, by simp, by rwa [shielded_behind s before even]⟩
    · obtain ⟨after, rfl⟩ := List.head?_eq_some_iff.mp next
      exact ⟨before, after, by simp, bare⟩

theorem bang_behind (s t : Chars) (even : ¬ Shielded s) (some : t ≠ []) : EndsInBang (s ++ t) ↔ EndsInBang t := by
  obtain ⟨t, c, rfl⟩ := (List.eq_nil_or_concat t).resolve_left some
  rw [List.concat_eq_append, ← List.append_assoc, bang_last, bang_last, shielded_behind s t even]

theorem gaps_bang (s gaps : Chars) (even : ¬ Shielded s) (all : ∀ c ∈ gaps, Text.isGap c) :
    EndsInBang (s ++ gaps) ↔ EndsInBang s ∧ gaps = [] := by
  rcases List.eq_nil_or_concat gaps with rfl | ⟨run, c, rfl⟩
  · simp
  · rw [bang_behind s _ even (by simp), List.concat_eq_append, bang_last]
    have gap := all c (by simp)
    refine iff_of_false (fun both => ?_) (by simp)
    rw [both.1] at gap
    cases gap

theorem calls_nil : ¬ CallsImage [] := by
  rintro ⟨before, after, whole, -⟩
  simp at whole

theorem calls_free (s : Chars) (free : '!' ∉ s ∨ '[' ∉ s) : ¬ CallsImage s := by
  rintro ⟨before, after, rfl, -⟩
  simp at free

theorem calls_last (s : Chars) (c : Char) (other : c ≠ '[') : CallsImage (s ++ [c]) ↔ CallsImage s := by
  constructor
  · rintro ⟨before, after, whole, bare⟩
    rcases List.eq_nil_or_concat after with rfl | ⟨after, d, rfl⟩
    · have ends : [c] = ['['] := List.append_inj_right' (by simpa using whole : s ++ [c] = before ++ ['!'] ++ ['[']) rfl
      exact absurd (List.cons.inj ends).1 other
    · rw [List.concat_eq_append, ← List.cons_append, ← List.cons_append, ← List.append_assoc] at whole
      exact ⟨before, after, List.append_inj_left' whole rfl, bare⟩
  · rintro ⟨before, after, rfl, bare⟩
    exact ⟨before, after ++ [c], by simp, bare⟩

-- A character that is none of the three keeps what stands before it apart from what comes after it.
theorem calls_apart (s : Chars) (c : Char) (t : Chars) (other : c ∉ ['\\', '!', '[']) :
    CallsImage (s ++ c :: t) ↔ CallsImage s ∨ CallsImage t := by
  simp only [List.mem_cons, List.not_mem_nil, or_false, not_or] at other
  have quiet : ¬ EndsInBang (s ++ [c]) := fun ends => other.2.1 ((bang_last s c).mp ends).1
  rw [List.append_cons, calls_append _ _ (even_last s c other.1), calls_last s c other.2.2]
  simp [quiet]

theorem calls_behind (c : Char) (t : Chars) (other : c ∉ ['\\', '!', '[']) : CallsImage (c :: t) ↔ CallsImage t := by
  simpa [calls_nil] using calls_apart [] c t other

theorem calls_run (s run : Chars) (other : ∀ c ∈ run, c ≠ '[') : CallsImage (s ++ run) ↔ CallsImage s := by
  induction run generalizing s with
  | nil => rw [List.append_nil]
  | cons c run ih =>
      rw [List.forall_mem_cons] at other
      rw [List.append_cons, ih _ other.2, calls_last s c other.1]

-- A backslash changes nothing when what it is put before is none of the three.
theorem calls_backslash (special : Chars) (other : ∀ c ∈ special, c ∉ ['\\', '!', '[']) (s : Chars) :
    CallsImage (Text.backslash special s) ↔ CallsImage s := by
  have along (x : Chars) : CallsImage (x ++ Text.backslash special s) ↔ CallsImage (x ++ s) := by
    induction s generalizing x with
    | nil => rfl
    | cons c s ih =>
        by_cases listed : c ∈ special
        · have written : Text.backslash special (c :: s) = '\\' :: c :: Text.backslash special s := by
            simp [Text.backslash, listed]
          rw [written, List.append_cons, calls_apart _ c _ (other c listed), calls_last x '\\' (by decide),
            calls_apart x c s (other c listed)]
          exact or_congr_right (ih [])
        · have written : Text.backslash special (c :: s) = c :: Text.backslash special s := by
            simp [Text.backslash, listed]
          rw [written, List.append_cons, ih, ← List.append_cons]
  exact along []

theorem calls_lines (ls : List Chars) : CallsImage (Text.unlines ls) ↔ ∃ line ∈ ls, CallsImage line := by
  induction ls with
  | nil => simpa [Text.unlines] using calls_nil
  | cons line rest ih =>
      by_cases last : rest = []
      · simp [last, Text.unlines]
      · rw [Text.unlines_cons line rest last, calls_apart _ _ _ (by decide), ih]
        simp

/-! Texts -/

namespace Reference

-- Brackets are escaped in a text, and exclamation marks are not.
structure Worded (w : Chars) : Prop where
  muted : Muted w
  bare : ∀ before after, w = before ++ '!' :: after → ¬ Shielded before

theorem pair_even (c : Char) : ¬ Shielded ['\\', c] := by
  rw [show ['\\', c] = ['\\'] ++ [c] from rfl, shielded_last]
  exact fun both => both.2 ((shielded_last [] '\\').mpr ⟨rfl, shielded_nil⟩)

theorem muted_even (s : Chars) (muted : Muted s) : ¬ Shielded s := by
  induction muted with
  | nil => exact shielded_nil
  | plain c s other _ _ ih => exact even_append [c] s (even_last [] c (other_bare c other).1) ih
  | slashed c s _ _ ih => exact even_append ['\\', c] s (pair_even c) ih

theorem muted_brackets (s before after : Chars) (muted : Muted s) (place : s = before ++ '[' :: after) :
    Shielded before := by
  induction muted generalizing before with
  | nil => simp at place
  | plain c s other _ _ ih =>
      cases before with
      | nil => exact absurd (List.cons.inj place).1 (other_bare c other).2.1
      | cons d before =>
          obtain ⟨rfl, later⟩ := List.cons.inj place
          exact (shielded_behind [c] before (even_last [] c (other_bare c other).1)).mpr (ih before later)
  | slashed c s _ _ ih =>
      match before with
      | [] => exact absurd (List.cons.inj place).1 (by decide)
      | [d] =>
          obtain ⟨rfl, -⟩ := List.cons.inj place
          exact (shielded_last [] '\\').mpr ⟨rfl, shielded_nil⟩
      | d :: e :: before =>
          obtain ⟨rfl, rest⟩ := List.cons.inj place
          obtain ⟨rfl, later⟩ := List.cons.inj rest
          exact (shielded_behind ['\\', c] before (pair_even c)).mpr (ih before later)

theorem muted_silent (s : Chars) (muted : Muted s) : ¬ CallsImage s := by
  rintro ⟨before, after, place, -⟩
  have shielded := muted_brackets s (before ++ ['!']) after muted (by simpa using place)
  exact even_last before '!' (by decide) shielded

theorem worded_append (s t : Chars) (first : Worded s) (next : Worded t) : Worded (s ++ t) := by
  refine ⟨muted_append s t first.muted next.muted, fun before after whole => ?_⟩
  rcases List.append_eq_append_iff.mp whole with ⟨x, rfl, later⟩ | ⟨x, rfl, rest⟩
  · exact even_append s x (muted_even s first.muted) (next.bare x after later)
  · cases x with
    | nil => simpa using muted_even _ first.muted
    | cons c x =>
        obtain ⟨rfl, -⟩ := List.cons.inj rest
        exact first.bare before x rfl

theorem worded_bang (w : Chars) (worded : Worded w) : EndsInBang w ↔ w.getLast? = some '!' := by
  constructor
  · rintro ⟨before, rfl, -⟩
    exact List.getLast?_concat
  · intro last
    obtain ⟨before, rfl⟩ := List.getLast?_eq_some_iff.mp last
    exact ⟨before, rfl, worded.bare before [] rfl⟩

theorem gaps_worded (s : Chars) (gaps : ∀ c ∈ s, Text.isGap c) (spaced : Spaced s) : Worded s := by
  refine ⟨Render.gaps_muted s gaps spaced, ?_⟩
  rintro before after rfl
  exact absurd (gaps '!' (by simp)) (by decide)

theorem spelled_worded (start : Bool) (s w : Chars) (spelled : Spelled inlineSpecial start s w) (spaced : Spaced s) :
    Worded w := by
  refine ⟨spelled_muted start s w spelled spaced, fun before after place => ?_⟩
  clear spaced
  induction spelled generalizing before with
  | nil => simp at place
  | plain start c s w common _ _ ih =>
      have unslashed : c ≠ '\\' := by
        rintro rfl
        exact common (by decide)
      cases before with
      | nil => exact shielded_nil
      | cons d before =>
          obtain ⟨rfl, later⟩ := List.cons.inj place
          exact even_append [c] before (even_last [] c unslashed) (ih before later)
  | slashed start c s w reason _ ih =>
      match before with
      | [] => exact absurd (List.cons.inj place).1 (by decide)
      | [d] =>
          obtain ⟨-, rest⟩ := List.cons.inj place
          obtain ⟨rfl, -⟩ := List.cons.inj rest
          rcases reason with listed | opens | ⟨-, listed⟩
          · exact absurd listed (by decide)
          · cases opens
          · exact absurd listed (by decide)
      | d :: e :: before =>
          obtain ⟨rfl, rest⟩ := List.cons.inj place
          obtain ⟨rfl, later⟩ := List.cons.inj rest
          exact even_append ['\\', c] before (pair_even c) (ih before later)

theorem flanking_worded (content : Chars) (worded : Worded content) : Worded (Whitespace.flanking content).1 ∧
    Worded (Whitespace.flanking content).2.1 ∧ Worded (Whitespace.flanking content).2.2 := by
  obtain ⟨first, inside, last⟩ := Render.flanking_muted content worded.muted
  obtain ⟨leads, trails⟩ := Render.flanking_gaps content
  refine ⟨gaps_worded _ leads (muted_spaced _ first), ⟨inside, fun before after place => ?_⟩,
    gaps_worded _ trails (muted_spaced _ last)⟩
  have whole := Render.flanking_whole content
  rw [place] at whole
  have bare := worded.bare ((Whitespace.flanking content).1 ++ before) (after ++ (Whitespace.flanking content).2.2)
    (by simpa using whole.symm)
  rwa [shielded_behind _ _ (muted_even _ first)] at bare

/-! Targets -/

/-- Whether a target has what begins an image in its address or its title. -/
def Loud (target : Target) : Prop := CallsImage target.1 ∨ ∃ title ∈ target.2, CallsImage title

theorem calls_title (s : Chars) (title : Option Chars) :
    CallsImage (s ++ titleSuffix title) ↔ CallsImage s ∨ ∃ text ∈ title, CallsImage text := by
  match title with
  | none => simp [titleSuffix]
  | some [] => simp [titleSuffix, calls_nil]
  | some (c :: text) =>
      have quoted : Text.replaceChar '"' ['\\', '"'] (c :: text) = Text.backslash ['"'] (c :: text) := by
        refine congrArg (List.flatMap · (c :: text)) (funext fun d => ?_)
        by_cases quote : d = '"' <;> simp [quote]
      have written : titleSuffix (some (c :: text)) = ' ' :: '"' :: (Text.backslash ['"'] (c :: text) ++ ['"']) := by
        rw [← quoted]
        rfl
      rw [written, calls_apart _ _ _ (by decide), calls_behind _ _ (by decide), calls_last _ _ (by decide),
        calls_backslash _ (by simp)]
      simp

theorem calls_angled (s : Chars) : CallsImage ('<' :: s ++ ['>']) ↔ CallsImage s := by
  rw [calls_last _ _ (by decide), calls_behind _ _ (by decide)]

theorem calls_bracket (s : Chars) : CallsImage ('[' :: s) ↔ CallsImage s := by
  have quiet : ¬ EndsInBang ['['] := fun ends => absurd ((bang_last [] '[').mp ends).1 (by decide)
  rw [← List.singleton_append, calls_append ['['] s (even_last [] '[' (by decide))]
  simp [quiet, calls_free ['['] (.inl (by decide))]

theorem calls_target (url : Chars) (title : Option Chars) :
    CallsImage (Downmark.Link.target url title) ↔ Loud (url, title) := by
  have address : CallsImage (Downmark.Link.destination url) ↔ CallsImage url := by
    have escaped := calls_backslash ['(', ')'] (by simp) url
    unfold Downmark.Link.destination
    dsimp only
    split
    · rw [calls_angled, escaped]
    · exact escaped
  rw [Downmark.Link.target, calls_last _ _ (by decide), List.cons_append, calls_behind _ _ (by decide), calls_title,
    address, Loud]

theorem calls_definition (link : Link) : CallsImage link.toMarkdown ↔ CallsImage link.label ∨ Loud link.target := by
  have address : CallsImage (if link.url.contains ' ' || link.url.isEmpty then '<' :: link.url ++ ['>'] else link.url) ↔
      CallsImage link.url := by
    split
    · exact calls_angled _
    · rfl
  rw [Link.toMarkdown, calls_title]
  generalize (if link.url.contains ' ' || link.url.isEmpty then '<' :: link.url ++ ['>'] else link.url) = written
    at address
  have line : '[' :: link.label ++ [']', ':', ' '] ++ written =
      ('[' :: link.label) ++ ']' :: ':' :: ' ' :: written := by simp
  rw [line, calls_apart _ _ _ (by decide), calls_bracket, calls_behind _ _ (by decide), calls_behind _ _ (by decide),
    address, Loud, Link.target, or_assoc]

theorem calls_defined (text : Chars) (links : List Link) : CallsImage (text ++ Render.definitionBlock links) ↔
    CallsImage text ∨ ∃ link ∈ links, CallsImage link.label ∨ Loud link.target := by
  unfold Render.definitionBlock
  cases links with
  | nil => simp
  | cons link rest =>
      rw [List.isEmpty_cons, if_neg Bool.false_ne_true, calls_apart _ _ _ (by decide), calls_behind _ _ (by decide),
        calls_lines]
      simp [calls_definition]

end Reference

end Downmark
