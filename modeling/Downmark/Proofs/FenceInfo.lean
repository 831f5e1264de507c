import Downmark.Proofs.CodeLines
import Downmark.Proofs.TagTexts
/-!
The language of a code block behind its opening fence. It is taken from attributes as it stands there, so it may make
the fence longer or end its line. Main statement: the first line is read as the opening fence with the language exactly
if the language has no line ending, does not begin with the character of the fence, and has no backticks behind
backticks.
-/

set_option autoImplicit false

namespace Downmark.Code

def staysOnLine (c : Char) : Bool := c != '\n' && c != '\r'

/-- The first line of a text that any line ending may end. -/
def openingLine (s : Chars) : Chars := (returnLines s).headD []

/-- What may stand behind a fence. -/
structure OnFence (c : Char) (info : Chars) : Prop where
  line : ∀ x ∈ info, staysOnLine x = true
  apart : info.head? ≠ some c
  plain : c = '`' → '`' ∉ info

/-- Where the language of a code block comes from: the whole of one attribute, or a word in the other one. -/
inductive Detected (n code : Marked) : Chars → Prop where
  | nowhere : Detected n code []
  | whole (e : Marked) (asked : e = code ∨ e = n) : Detected n code (e.attr "data-lang")
  | word (e : Marked) (asked : e = code ∨ e = n) (found : Chars) (inside : found <:+: e.attr "class")
      (solid : ∀ c ∈ found, Text.isBlank c = false) : Detected n code found

theorem opening_line_run (s : Chars) : openingLine s = s.takeWhile staysOnLine := by
  unfold openingLine
  fun_induction returnLines s with
  | case1 => rfl
  | case2 s => rfl
  | case3 c s _ ends =>
      have stops : staysOnLine c = false := by
        rw [Bool.or_eq_true, beq_iff_eq, beq_iff_eq] at ends
        rcases ends with rfl | rfl <;> rfl
      rw [List.takeWhile_cons_of_neg (by simp [stops]), List.headD_cons]
  | case4 c s _ goes ih =>
      have stays : staysOnLine c = true := by simpa [staysOnLine] using goes
      obtain ⟨first, rest, same, -⟩ := return_lines_inside s
      rw [List.takeWhile_cons_of_pos stays, ← ih, same]
      rfl

theorem trim_keeps (c : Char) (s : Chars) (solid : Text.isGap c = false) :
    c ∈ Text.trim Text.isGap s ↔ c ∈ s := by
  obtain ⟨before, left, gaps⟩ := Text.trim_start_run Text.isGap s
  obtain ⟨after, right, others⟩ := Text.trim_end_run Text.isGap (Text.trimStart Text.isGap s)
  have outside (run : Chars) (all : ∀ x ∈ run, Text.isGap x = true) : c ∉ run := fun member => by
    have gap := all c member
    rw [solid] at gap
    cases gap
  have whole : s = before ++ (Text.trim Text.isGap s ++ after) := by rw [Text.trim, ← right, ← left]
  conv => rhs; rw [whole]
  simp [outside before gaps, outside after others]

theorem stays_solid (c : Char) (solid : Text.isBlank c = false) : staysOnLine c = true := by
  have other : c ≠ '\n' ∧ c ≠ '\r' := by
    constructor <;> rintro rfl <;> cases solid
  simpa [staysOnLine] using other

-- A line ending is no gap, so trimming cannot hide one.
theorem info_read_iff (marker : FenceMarker) (n : Nat) (enough : 3 ≤ n) (info : Chars) :
    opening? (List.replicate n marker.char ++ info.takeWhile staysOnLine) =
        some ⟨marker.char, n, 0, Text.trim Text.isGap info⟩ ↔ OnFence marker.char info := by
  rw [opening_iff marker n enough]
  constructor
  · rintro ⟨apart, plain, same⟩
    have line : ∀ x ∈ info, staysOnLine x = true := fun x member => by
      by_contra ends
      have broken : Text.isGap x = false := by
        have other : x = '\n' ∨ x = '\r' := by simpa [staysOnLine, -not_and, Decidable.not_and_iff_or_not] using ends
        rcases other with rfl | rfl <;> rfl
      have inside := (trim_keeps x _ broken).mpr member
      rw [← same, trim_keeps x _ broken] at inside
      exact ends (List.all_eq_true.mp List.all_takeWhile x inside)
    rw [List.takeWhile_eq_self_iff.mpr line] at apart plain
    exact ⟨line, apart, fun tick member => plain tick ((trim_keeps '`' info rfl).mpr member)⟩
  · rintro ⟨line, apart, plain⟩
    rw [List.takeWhile_eq_self_iff.mpr line]
    exact ⟨apart, fun tick member => plain tick ((trim_keeps '`' info rfl).mp member), rfl⟩

theorem fenced_opening (marker : FenceMarker) (info code : Chars) : openingLine (fenced marker.char info code) =
    fenceFor marker.char code ++ info.takeWhile staysOnLine := by
  have fence : ∀ c ∈ fenceFor marker.char code, staysOnLine c = true := fun c member => by
    simpa [staysOnLine] using marker_line marker _ c member
  have whole : fenced marker.char info code =
      fenceFor marker.char code ++ (info ++ '\n' :: (code ++ '\n' :: fenceFor marker.char code)) := by simp [fenced]
  rw [opening_line_run, whole, List.takeWhile_append_of_pos fence, List.takeWhile_append]
  split
  · rename_i all
    have info : info.takeWhile staysOnLine = info := (List.takeWhile_prefix _).eq_of_length all
    rw [List.takeWhile_cons_of_neg (by decide), List.append_nil, info]
  · rfl

theorem search_found (key : Chars) (read : Chars → Option Chars) (s found : Chars)
    (here : search key read s = some found) : ∃ rest, rest <:+ s ∧ read rest = some found := by
  induction s with
  | nil => cases here
  | cons c s ih =>
      unfold search at here
      split at here
      · rename_i other told
        cases here
        obtain ⟨rest, stripped, read⟩ := Option.bind_eq_some_iff.mp told
        exact ⟨rest, ⟨key, (Text.eq_append_of_strip stripped).symm⟩, read⟩
      · obtain ⟨rest, later, read⟩ := ih here
        exact ⟨rest, later.trans (List.suffix_cons c s), read⟩

theorem run_found (p : Char → Bool) (s found : Chars) (read : runOf? p s = some found) :
    found <+: s ∧ ∀ c ∈ found, p c = true := by
  unfold runOf? at read
  split at read
  · cases read
  · cases read
    rename_i run
    exact ⟨List.takeWhile_prefix p, fun c member => List.all_eq_true.mp List.all_takeWhile c member⟩

theorem class_found (s found : Chars) (named : classLanguage? s = some found) :
    found <:+: s ∧ ∀ c ∈ found, Text.isBlank c = false := by
  have word (key : Chars) (told : search key (runOf? fun c => !Text.isBlank c) s = some found) :
      found <:+: s ∧ ∀ c ∈ found, Text.isBlank c = false := by
    obtain ⟨rest, later, read⟩ := search_found _ _ s found told
    obtain ⟨front, solid⟩ := run_found _ rest found read
    exact ⟨front.isInfix.trans later.isInfix, fun c member => by simpa using solid c member⟩
  unfold classLanguage? at named
  rcases (Option.orElse_eq_some _ _ _).mp named with first | ⟨-, later⟩
  · exact word _ first
  · rcases (Option.orElse_eq_some _ _ _).mp later with second | ⟨-, third⟩
    · exact word _ second
    · obtain ⟨rest, behind, read⟩ := search_found _ _ s found third
      obtain ⟨front, words⟩ := run_found _ _ found read
      exact ⟨(front.isInfix.trans (List.dropWhile_suffix _).isInfix).trans behind.isInfix,
        fun c member => Html.word_solid c (words c member)⟩

theorem element_found (n code e : Marked) (asked : e = code ∨ e = n) (found : Chars)
    (named : elementLanguage? e = some found) : Detected n code found := by
  unfold elementLanguage? at named
  split at named
  · obtain ⟨inside, solid⟩ := class_found _ found named
    exact .word e asked found inside solid
  · cases named
    exact .whole e asked

theorem language_detected (n code : Marked) (held : n.find? "code" = some code) :
    ∃ info, language n = .ok info ∧ Detected n code info := by
  have named : language n = .ok (((elementLanguage? code).orElse fun _ => elementLanguage? n).getD []) := by
    rw [language, codeElement, held]
    rfl
  refine ⟨_, named, ?_⟩
  cases told : (elementLanguage? code).orElse fun _ => elementLanguage? n with
  | none => exact .nowhere
  | some found =>
      rcases (Option.orElse_eq_some _ _ _).mp told with first | ⟨-, second⟩
      · exact element_found n code code (.inl rfl) found first
      · exact element_found n code n (.inr rfl) found second

/-- Attributes that cannot change a fence of this character: it is in none of them, and the one that is taken as a
whole has no line ending. -/
def SafeAttributes (c : Char) (e : Marked) : Prop :=
  (∀ x ∈ e.attr "data-lang", x ≠ c ∧ staysOnLine x = true) ∧ c ∉ e.attr "class"

-- Going through the characters of the attribute, and not through all characters.
instance (c : Char) (e : Marked) : Decidable (SafeAttributes c e) :=
  @instDecidableAnd _ _ (List.decidableBAll _ _) inferInstance

theorem safe_on_fence (marker : FenceMarker) (n code : Marked) (safe : SafeAttributes marker.char n)
    (within : SafeAttributes marker.char code) (info : Chars) (detected : Detected n code info) :
    OnFence marker.char info := by
  have each (e : Marked) (asked : e = code ∨ e = n) : SafeAttributes marker.char e := by
    rcases asked with rfl | rfl
    · exact within
    · exact safe
  have plain : ∀ x ∈ info, x ≠ marker.char ∧ staysOnLine x = true := by
    cases detected with
    | nowhere => exact nofun
    | whole e asked => exact (each e asked).1
    | word e asked _ inside solid =>
        exact fun x member =>
          ⟨fun same => (each e asked).2 (same ▸ inside.subset member), stays_solid x (solid x member)⟩
  exact ⟨fun x member => (plain x member).2, fun first => (plain _ (List.mem_of_head? first)).1 rfl,
    fun tick member => (plain '`' member).1 tick.symm⟩

theorem fence_line_read_iff (site : Site) (block : isBlock site.node = true) :
    ∃ code info text, site.node.find? "code" = some code ∧ language site.node = .ok info ∧
      blockText site.node = .ok text ∧ Detected site.node code info ∧
      ∀ content o s,
        Block.fencedCode content site o s = .ok (Block.apart (fenced o.fence.char info text)) s ∧
        (opening? (openingLine (fenced o.fence.char info text)) =
            some ⟨o.fence.char, fenceLength o.fence.char text, 0, Text.trim Text.isGap info⟩ ↔
          OnFence o.fence.char info) ∧
        (SafeAttributes o.fence.char site.node → SafeAttributes o.fence.char code → OnFence o.fence.char info) := by
  obtain ⟨-, code, -, -, held, -⟩ := code_block_shape site.node block
  obtain ⟨info, told, detected⟩ := language_detected site.node code held
  have text := found_text site.node code held
  refine ⟨code, info, _, held, told, text, detected, fun content o s => ⟨?_, ?_, fun safe within => ?_⟩⟩
  · rw [Block.fencedCode, text, told]
    rfl
  · rw [fenced_opening, fenceFor]
    exact info_read_iff o.fence _ (fence_least _ _) info
  · exact safe_on_fence o.fence site.node code safe within info detected

-- The language is asked of the element around the code, after the code itself names none; the fence has four tildes.
def tildedCode : Tree :=
  .element () "pre" [("data-lang", "c ++".toList)]
    [.element () "code" [("class", "lang".toList)] [.text () "~~~\n".toList]]

theorem tilded_code_opened : isBlock (Site.ofTree tildedCode).node = true ∧
    Block.fencedCode [] (Site.ofTree tildedCode) { fence := .tilde } {} =
      .ok (Block.apart (fenced '~' "c ++".toList "~~~".toList)) {} ∧
    opening? (openingLine (fenced '~' "c ++".toList "~~~".toList)) = some ⟨'~', 4, 0, "c ++".toList⟩ := by
  have block : isBlock (Site.ofTree tildedCode).node = true := by decide
  obtain ⟨code, info, text, held, told, read, -, written⟩ := fence_line_read_iff (Site.ofTree tildedCode) block
  obtain ⟨answer, opening, safe⟩ := written [] { fence := .tilde } {}
  obtain rfl : "c ++".toList = info := by
    cases told
    decide
  obtain rfl : "~~~".toList = text := by
    cases read
    decide
  have within : SafeAttributes '~' code := by
    cases held
    decide
  have around : SafeAttributes '~' (Site.ofTree tildedCode).node := by decide
  refine ⟨block, answer, (opening.mpr (safe around within)).trans ?_⟩
  decide

def tickedClass : Tree :=
  .element () "pre" [] [.element () "code" [("class", "language-`".toList)] [.text () ['x']]]

-- The backtick of the class makes an opening fence of four, and the closing fence is of three.
theorem fence_lengthened : ¬ ∀ (site : Site), isBlock site.node = true → ∀ info text,
    language site.node = .ok info → blockText site.node = .ok text → ∀ (o : Options),
      opening? (openingLine (fenced o.fence.char info text)) =
        some ⟨o.fence.char, fenceLength o.fence.char text, 0, Text.trim Text.isGap info⟩ := by
  intro always
  have read := always (Site.ofTree tickedClass) (by decide) ['`'] ['x'] (by rfl) (by rfl) {}
  exact absurd read (by decide)

end Downmark.Code
