import Downmark.Proofs.EscapedWords
import Downmark.Proofs.ReadBack
/-!
Headings as they are read again. A reader drops a last word of number signs, which escaping leaves as they are.
Main statement: a heading has the level of its element, and its content is the escaped text with its white space
folded exactly if no such word ends it and white space beside the first word hides no marker.
-/

set_option autoImplicit false

namespace Downmark

namespace Text

theorem words_before (before s : Chars) (blank : ∀ c ∈ before, isBlank c = true) : words (before ++ s) = words s := by
  induction before with
  | nil => rfl
  | cons c before ih =>
      rw [List.forall_mem_cons] at blank
      rw [List.cons_append, ← List.nil_append (c :: _), words_blank c blank.1, ih blank.2]
      rfl

theorem words_behind (s after : Chars) (blank : ∀ c ∈ after, isBlank c = true) : words (s ++ after) = words s := by
  cases after with
  | nil => rw [List.append_nil]
  | cons c after =>
      rw [List.forall_mem_cons] at blank
      have none : words after = [] := by
        rw [← List.append_nil after, words_before after [] blank.2]
        rfl
      rw [words_blank c blank.1, none, List.append_nil]

theorem words_some (s : Chars) : (∀ w ∈ words s, w ≠ []) ∧ (words s = [] ↔ isBlankText s = true) := by
  induction s using word_induction with
  | last w solid =>
      cases w with
      | nil => exact ⟨nofun, by decide⟩
      | cons c w =>
          rw [words_solid _ (List.cons_ne_nil c w) solid]
          simp [isBlankText, solid c List.mem_cons_self]
  | more w c rest solid blank ih =>
      have first : (∀ v ∈ words w, v ≠ []) ∧ (words w = [] ↔ isBlankText w = true) := by
        cases w with
        | nil => exact ⟨nofun, by decide⟩
        | cons d w =>
            rw [words_solid _ (List.cons_ne_nil d w) solid]
            simp [isBlankText, solid d List.mem_cons_self]
      have whole : isBlankText (w ++ c :: rest) = (isBlankText w && isBlankText rest) := by simp [isBlankText, blank]
      rw [words_blank c blank, List.forall_mem_append, List.append_eq_nil_iff, first.2, ih.2, whole, Bool.and_eq_true]
      exact ⟨⟨first.1, ih.1⟩, Iff.rfl⟩

end Text

namespace Whitespace

open Text

theorem words_squeezed (s : Chars) : words (squeezeFrom true s) = words s ∧
    ∀ front, words (front ++ squeezeFrom false s) = words (front ++ s) := by
  induction s with
  | nil => exact ⟨rfl, fun _ => rfl⟩
  | cons c s ih =>
      by_cases blank : isCollapsible c = true
      · have space := collapsible_blank c blank
        have alone : words (c :: s) = words s := words_before [c] s (by simpa using space)
        rw [squeeze_from_blank true c s blank, squeeze_from_blank false c s blank]
        refine ⟨by simpa [alone] using ih.1, fun front => ?_⟩
        rw [if_neg Bool.false_ne_true, words_space, ih.1, words_blank c space]
      · have solid : isCollapsible c = false := by simpa using blank
        rw [squeeze_from_solid true c s solid, squeeze_from_solid false c s solid]
        refine ⟨ih.2 [c], fun front => ?_⟩
        have next := ih.2 (front ++ [c])
        rwa [List.append_assoc, List.append_assoc] at next

theorem words_settled (s : Chars) : words (settled s) = words s := by
  obtain ⟨before, after, whole, spaces, others⟩ := Render.settled_parts s
  have blank (cs : Chars) (only : ∀ c ∈ cs, c = ' ') : ∀ c ∈ cs, isBlank c = true := fun c member => only c member ▸ rfl
  have squeezed : words (squeeze s) = words s := (words_squeezed s).2 []
  rw [← squeezed, whole, words_behind _ after (blank after others), words_before before _ (blank before spaces)]

theorem settled_spaced (s : Chars) : Spaced (settled s) := by
  obtain ⟨before, after, whole, -, -⟩ := Render.settled_parts s
  have spaced : Spaced (squeeze s) := squeeze_spaced false s
  rw [whole] at spaced
  exact fun c member => spaced c (by simp [member])

theorem settle_lone (s : Chars) : settle [.text s] = [settled s] := by
  have dropped : forward {} [.text s] = [.text (squeezeFrom true s)] := by
    rw [← squeeze_from_drop]
    rfl
  rw [settle, dropped, backward, backward, settled, Text.trim, squeeze, squeeze_from_trim]
  dsimp only
  split
  · rename_i empty
    rw [List.isEmpty_iff.mp empty]
    rfl
  · rfl

end Whitespace

namespace Heading

open Text Escape Whitespace

-- The closing run of number signs may be the whole content; else there is a gap before it.
def unclosed (content : Chars) : Chars :=
  let rest := trimEnd (· == '#') content
  if rest.getLast?.all isGap then trimEnd isGap rest else content

/-- The level and the raw content of a line that is a heading. -/
def read? (line : Chars) : Option (Nat × Chars) :=
  let signs := line.takeWhile (· == '#')
  let rest := line.dropWhile (· == '#')
  if 1 ≤ signs.length ∧ signs.length ≤ 6 ∧ rest.head?.all isGap = true then
    some (signs.length, unclosed (trim isGap rest))
  else none

theorem read_line (level : Nat) (content : Chars) (low : 1 ≤ level) (few : level ≤ 6)
    (first : content.head?.any isGap = false) (last : content.getLast?.any isGap = false) :
    read? (List.replicate level '#' ++ ' ' :: content) = some (level, unclosed content) := by
  have signs : ∀ c ∈ List.replicate level '#', (c == '#') = true := by simp
  have taken := take_run (· == '#') (List.replicate level '#') (' ' :: content) signs rfl
  have dropped : (List.replicate level '#' ++ ' ' :: content).dropWhile (· == '#') = ' ' :: content := by
    rw [List.dropWhile_append_of_pos signs]
    rfl
  have kept : trim isGap (' ' :: content) = content := by
    rw [trim, trimStart, List.dropWhile_cons_of_pos rfl, drop_none isGap content first, trim_end_none _ _ last]
  simp only [read?, taken, dropped, List.length_replicate, kept]
  exact if_pos ⟨low, few, rfl⟩

theorem unclosed_length (content : Chars) : (unclosed content).length ≤ content.length := by
  unfold unclosed
  dsimp only
  split
  · exact Nat.le_trans (trim_end_shorter _ _) (trim_end_shorter _ _)
  · exact Nat.le_refl _

theorem unclosed_run (front w : Chars) (gap : front.getLast?.all isGap = true) (signs : ∀ c ∈ w, c = '#') :
    unclosed (front ++ w) = trimEnd isGap front := by
  have open_ : trimEnd (· == '#') front = front := by
    refine trim_end_none _ front ?_
    cases last : front.getLast? with
    | none => rfl
    | some c =>
        rw [last] at gap
        refine beq_eq_false_iff_ne.mpr ?_
        rintro rfl
        cases gap
  have dropped : trimEnd (· == '#') (front ++ w) = front := by
    rw [trim_end_append, trim_end_all _ w (by simpa using signs), if_pos List.isEmpty_nil, open_]
  simp only [unclosed, dropped, gap, if_true]

theorem unclosed_word (front w : Chars) (solid : ∀ c ∈ w, isBlank c = false) (other : ¬ ∀ c ∈ w, c = '#') :
    unclosed (front ++ w) = front ++ w := by
  have kept : trimEnd (· == '#') w ≠ [] := fun gone => other (by simpa using trim_end_empty _ w gone)
  obtain ⟨run, whole, -⟩ := trim_end_run (· == '#') w
  have inside : ∀ c ∈ trimEnd (· == '#') w, c ∈ w := fun c member => whole ▸ List.mem_append_left run member
  have last : (trimEnd (· == '#') (front ++ w)).getLast?.all isGap = false := by
    rw [trim_end_append, if_neg (by simpa using kept), List.getLast?_append_of_ne_nil _ kept,
      List.getLast?_eq_some_getLast kept]
    exact solid_gapless _ (solid _ (inside _ (List.getLast_mem kept)))
  simp [unclosed, last]

-- Whether the last word is dropped does not depend on the words before it.
theorem unclosed_words (ws : List Chars) (w : Chars) (some : w ≠ []) (solid : ∀ c ∈ w, isBlank c = false) :
    unclosed ([' '].intercalate (ws ++ [w])) = [' '].intercalate (ws ++ [w]) ↔ ¬ ∀ c ∈ w, c = '#' := by
  rw [intercalate_last]
  have gap : ([' '].intercalate ws ++ if ws = [] then [] else [' ']).getLast?.all isGap = true := by
    by_cases none : ws = []
    · subst none
      rfl
    · simp [none, isGap]
  generalize [' '].intercalate ws ++ (if ws = [] then [] else [' ']) = front at gap
  refine ⟨fun same signs => ?_, unclosed_word front w solid⟩
  have shorter := trim_end_shorter isGap front
  rw [unclosed_run front w gap signs] at same
  rw [same, List.length_append] at shorter
  have more := List.length_pos_iff.mpr some
  omega

theorem signs_escaped (w : Chars) (free : '\n' ∉ w) : (∀ c ∈ escapeInner w, c = '#') ↔ ∀ c ∈ w, c = '#' := by
  constructor
  · intro signs c member
    exact signs c (reads_mem _ w (escape_inner_reads w free) c member)
  · intro signs
    have same := escape_inner_inert w [] fun c member => signs c member ▸ rfl
    rw [List.append_nil] at same
    rw [same, show escapeInner [] = [] from rfl, List.append_nil]
    exact signs

-- The last word of a text that closes a heading. A run that is the whole text is escaped if it is short.
def Closes (ws : List Chars) : Prop :=
  ∃ before signs, ws = before ++ [List.replicate signs '#'] ∧ (before = [] → 6 < signs)

theorem signs_block_start (signs : Nat) : BlockStart (List.replicate (signs + 1) '#') ↔ signs + 1 ≤ 6 := by
  have opens : opensHeading (List.replicate (signs + 1) '#') = decide (signs + 1 ≤ 6) := by
    have all : ∀ c ∈ List.replicate (signs + 1) '#', (c == '#') = true := by simp
    have taken := take_run (· == '#') _ [] all rfl
    have dropped : (List.replicate (signs + 1) '#').dropWhile (· == '#') = [] := List.dropWhile_eq_nil_iff.mpr all
    rw [List.append_nil] at taken
    simp [opensHeading, taken, dropped, endsMarker]
  rw [← not_iff_not, ← escape_line_iff, List.replicate_succ] at *
  simp only [escapeLine, opens]
  by_cases few : signs + 1 ≤ 6 <;> simp [few]

theorem escaped_words (first : Chars) (rest : List Chars) (some : first ≠ [])
    (solid : ∀ c ∈ first, isBlank c = false) : escapeLine (escapeInner ([' '].intercalate (first :: rest))) =
      [' '].intercalate (escapeLine (escapeInner first) :: rest.map escapeInner) := by
  have leading (tail : Chars) (ends : tail.head?.all isBlank = true) : Leading (escapeInner first) tail :=
    ⟨fun none => some ((escape_inner_empty first).mp none), escape_inner_solid first solid, ends⟩
  rw [escape_inner_words, List.map_cons]
  cases rest.map escapeInner with
  | nil => rw [List.intercalate_singleton, List.intercalate_singleton]
  | cons next more =>
      rw [List.intercalate_cons_cons, List.intercalate_cons_cons, List.append_assoc, List.append_assoc]
      exact (escape_line_word _ _ (leading _ rfl)).resolve_right (by simp [endsMarker, isGap])

theorem lone_word_signs (w : Chars) (some : w ≠ []) (free : '\n' ∉ w) :
    (∀ c ∈ escapeLine (escapeInner w), c = '#') ↔ ∃ signs, w = List.replicate signs '#' ∧ 6 < signs := by
  have reads := markdown_reads w []
  rw [markdown_line w free] at reads
  have same (signs : Nat) : escapeInner (List.replicate signs '#') = List.replicate signs '#' := by
    have inert := escape_inner_inert (List.replicate signs '#') [] fun c member => List.eq_of_mem_replicate member ▸ rfl
    rwa [List.append_nil, show escapeInner [] = [] from rfl, List.append_nil] at inert
  constructor
  · intro signs
    -- Without a backslash what is written is the word itself.
    obtain ⟨t, whole, none⟩ := reads_behind _ [] w (by rwa [List.append_nil]) fun slash =>
      absurd (signs _ slash) (by decide)
    cases none
    rw [List.append_nil] at whole
    have run : w = List.replicate w.length '#' :=
      List.eq_replicate_iff.mpr ⟨rfl, fun c member => signs c (whole ▸ member)⟩
    obtain ⟨k, length⟩ := Nat.exists_eq_succ_of_ne_zero (Nat.ne_of_gt (List.length_pos_iff.mpr some))
    rw [length] at run
    rw [run, same] at whole
    refine ⟨k + 1, run, ?_⟩
    by_contra few
    exact (escape_line_iff _).mp whole.symm ((signs_block_start k).mpr (by omega))
  · rintro ⟨signs, rfl, many⟩
    obtain ⟨k, rfl⟩ := Nat.exists_eq_succ_of_ne_zero (Nat.ne_of_gt (Nat.lt_of_le_of_lt (Nat.zero_le 6) many))
    have plain := (escape_line_iff _).mpr fun block => absurd ((signs_block_start k).mp block) (by omega)
    rw [same, plain]
    exact fun c member => List.eq_of_mem_replicate member

-- A reader keeps an escaped text whole unless its last word is a run of signs without a backslash.
theorem escaped_kept (ws : List Chars) (some : ws ≠ []) (each : ∀ w ∈ ws, w ≠ [] ∧ ∀ c ∈ w, isBlank c = false) :
    unclosed (escapeLine (escapeInner ([' '].intercalate ws))) =
      escapeLine (escapeInner ([' '].intercalate ws)) ↔ ¬ Closes ws := by
  have free (w : Chars) (listed : w ∈ ws) : '\n' ∉ w := fun member => absurd ((each w listed).2 _ member) (by decide)
  obtain ⟨first, rest, rfl⟩ := List.exists_cons_of_ne_nil some
  obtain ⟨full, solid⟩ := each first List.mem_cons_self
  rw [escaped_words first rest full solid]
  rcases List.eq_nil_or_concat rest with rfl | ⟨middle, last, rfl⟩
  · have written := leading_escaped (escapeInner first) []
      ⟨fun none => full ((escape_inner_empty first).mp none), escape_inner_solid first solid, rfl⟩
    have kept := unclosed_words [] _ written.some written.solid
    rw [List.nil_append] at kept
    rw [List.map_nil, kept, lone_word_signs first full (free first List.mem_cons_self), not_iff_not]
    constructor
    · rintro ⟨signs, rfl, many⟩
      exact ⟨[], signs, rfl, fun _ => many⟩
    · rintro ⟨before, signs, whole, many⟩
      obtain ⟨none, alone⟩ : before = [] ∧ List.replicate signs '#' = first := by
        simpa using List.append_eq_singleton_iff.mp whole.symm
      exact ⟨signs, alone.symm, many none⟩
  · have listed : last ∈ first :: middle.concat last := by simp
    obtain ⟨some, inside⟩ := each last listed
    have kept := unclosed_words (escapeLine (escapeInner first) :: middle.map escapeInner) (escapeInner last)
      (fun none => some ((escape_inner_empty last).mp none)) (escape_inner_solid last inside)
    rw [List.concat_eq_append, List.map_append, List.map_singleton, ← List.cons_append, kept,
      signs_escaped last (free last listed), not_iff_not]
    constructor
    · intro signs
      refine ⟨first :: middle, last.length, ?_, nofun⟩
      rw [← List.eq_replicate_iff.mpr ⟨rfl, signs⟩]
      rfl
    · rintro ⟨before, signs, whole, -⟩
      rw [← List.cons_append] at whole
      obtain ⟨-, same⟩ := List.append_inj' whole rfl
      rw [List.singleton_inj.mp same]
      exact fun c member => List.eq_of_mem_replicate member

theorem folded_free (s : Chars) : '\n' ∉ oneSpaced s := fun member => by
  rcases one_spaced_mem s _ member with space | solid
  · cases space
  · cases solid

-- The content that is written: where the folded text needs a backslash that the text itself did not, there is none.
theorem content_written (s : Chars) (free : '\n' ∉ s) : (BlockStart (oneSpaced s) → BlockStart s) ∧
      oneSpaced (markdown s []) = markdown (oneSpaced s) [] ∨
    ¬ (BlockStart (oneSpaced s) → BlockStart s) ∧ oneSpaced (markdown s []) = escapeInner (oneSpaced s) ∧
      (escapeInner (oneSpaced s)).length < (markdown (oneSpaced s) []).length := by
  have line := folded_free s
  rw [markdown_line s free, markdown_line _ line, folded_line, ← escape_inner_spaced]
  have here := escape_line_iff (escapeInner s)
  have folded := escape_line_iff (escapeInner (oneSpaced s))
  rw [escape_inner_block_start s free] at here
  rw [escape_inner_block_start _ line] at folded
  by_cases block : BlockStart s
  · rw [if_neg fun same => here.mp same block]
    exact .inl ⟨fun _ => block, rfl⟩
  · rw [if_pos (here.mpr block)]
    by_cases hidden : BlockStart (oneSpaced s)
    · refine .inr ⟨fun shown => block (shown hidden), rfl, ?_⟩
      have guarded := escape_line_guards (escapeInner (oneSpaced s))
      have changed : escapeLine (escapeInner (oneSpaced s)) ≠ escapeInner (oneSpaced s) := fun same =>
        folded.mp same hidden
      generalize escapeLine (escapeInner (oneSpaced s)) = written at guarded changed
      cases guarded with
      | none => exact absurd rfl changed
      | first c rest same _ => simp [same]
      | period digits rest same _ _ => simp [same]
    · exact .inl ⟨fun shown => absurd shown hidden, (folded.mpr hidden).symm⟩

theorem folded_some (s : Chars) (shown : isBlankText s = false) : oneSpaced s ≠ [] := by
  obtain ⟨each, empty⟩ := words_some s
  unfold oneSpaced
  cases found : words s with
  | nil =>
      rw [empty.mp found] at shown
      cases shown
  | cons w ws =>
      have full := each w (found ▸ List.mem_cons_self)
      cases ws with
      | nil => simpa using full
      | cons v ws => simp [List.intercalate_cons_cons]

theorem content_some (s : Chars) (free : '\n' ∉ s) (shown : isBlankText s = false) :
    oneSpaced (markdown s []) ≠ [] := by
  have full : escapeInner (oneSpaced s) ≠ [] := fun none => folded_some s shown ((escape_inner_empty _).mp none)
  rcases content_written s free with ⟨-, same⟩ | ⟨-, same, -⟩
  · rw [same, markdown_line _ (folded_free s)]
    exact fun none => full ((escape_line_empty _).mp none)
  · exact same ▸ full

def headingRule : Rule :=
  { name := "heading", filter := .tags CommonMark.headingTags, replacement := Block.heading }

section

variable (o : Options) (tag : String) (a : Attrs) (t : Chars)

theorem heading_tag (listed : tag ∈ CommonMark.headingTags) :
    isBlockTag tag = true ∧ isListTag tag = false ∧ staysBlankTag tag = false ∧
      isKept o.preformattedCode tag = false := by
  have all : ∀ tag ∈ CommonMark.headingTags, isBlockTag tag = true ∧ isListTag tag = false ∧ staysBlankTag tag = false ∧
      isKept true tag = false := by decide
  obtain ⟨block, list, blank, kept⟩ := all tag listed
  refine ⟨block, list, blank, ?_⟩
  rw [isKept, Bool.true_and] at kept
  rw [isKept, kept, Bool.and_false]

theorem heading_passed (listed : tag ∈ CommonMark.headingTags) (m : Mark) (ks : List Marked) (path : List Step)
    (s : State) : ({} : RuleTable).find ⟨.element m tag a ks, path⟩ o false = .ok headingRule ∧
      Render.enter o ⟨.element m tag a ks, path⟩ s = .ok () s ∧
        Render.leave o ⟨.element m tag a ks, path⟩ s = .ok () s := by
  rcases (by simpa [CommonMark.headingTags] using listed :
      tag = "h1" ∨ tag = "h2" ∨ tag = "h3" ∨ tag = "h4" ∨ tag = "h5" ∨ tag = "h6") with
    rfl | rfl | rfl | rfl | rfl | rfl <;> exact ⟨rfl, rfl, rfl⟩

theorem heading_joined (listed : tag ∈ CommonMark.headingTags) (m : Mark) (ks : List Marked) (path : List Step)
    {s u : State} {outer : List Open} {isBlock : Bool} (output content : Chars)
    (rendered : Render.nodes {} o (⟨output, isBlock⟩ :: outer) true (.element m tag a) path [] [] ks s =
      .ok content u) :
    Render.node {} o outer isBlock path output (.element m tag a ks) s = .ok (join output (if m.blank then ['\n', '\n']
      else Block.apart (Block.headingText o.headingStyle (Block.headingLevel tag) content))) u := by
  obtain ⟨claimed, entered, -⟩ := heading_passed o tag a listed m ks path s
  obtain ⟨-, -, left⟩ := heading_passed o tag a listed m ks path u
  have block := (heading_tag o tag listed).1
  have found : ({} : RuleTable).find ⟨.element m tag a ks, path⟩ o m.blank =
      .ok (if m.blank then Rule.blank else headingRule) := by
    cases m.blank with
    | true => rfl
    | false => exact claimed
  refine Render.container_written {} o outer isBlock path output m tag a ks _ s s content _ block found ?_ entered
    rendered ?_ left
  · cases m.blank <;> rfl
  · cases m.blank with
    | true =>
        change EStateM.Result.ok (if Node.isBlock (.element m tag a ks) then ['\n', '\n'] else []) u = _
        rw [if_pos (show Node.isBlock (.element m tag a ks) = true from block)]
        rfl
    | false => rfl

theorem heading_prepared (listed : tag ∈ CommonMark.headingTags) (shown : isBlankText t = false) :
    prepare o (Render.unmark (.element () tag a [.text () t])) =
      .element {} tag a [.text { shown := some (settled t) } t] := by
  obtain ⟨-, list, blank, open_⟩ := heading_tag o tag listed
  have collapsed : collapse o.preformattedCode (Render.unmark (.element () tag a [.text () t])) =
      .element {} tag a [.text { shown := some (settled t) } t] := by
    rw [Render.unmark_element, collapse, open_, if_neg Bool.false_ne_true]
    change Node.element {} tag a (fillAll o.preformattedCode [.text {} t] (settle [.text t])).1 = _
    rw [settle_lone]
    rfl
  rw [prepare, collapsed]
  simp [Node.markBlank, Node.markAllBlank, ListMarker.mark, ListMarker.markAll, list, blank, shown]

theorem settled_free : '\n' ∉ settled t := fun member => absurd (settled_spaced t _ member rfl) (by decide)

theorem heading_converted (listed : tag ∈ CommonMark.headingTags) (shown : isBlankText t = false) :
    Render.conversion o (.element () tag a [.text () t]) = .ok (Render.trimmed (join [] (Block.apart
      (Block.headingText o.headingStyle (Block.headingLevel tag) (markdown (settled t) []))))) := by
  let kid : Marked := .text { shown := some (settled t) } t
  let start := Render.logged (.element () tag a [.text () t])
  have prepared := heading_prepared o tag a t listed shown
  have free : '\n' ∉ markdown (settled t) [] :=
    spelled_free inlineSpecial true _ _ (markdown_spelled (settled t) []) (settled_free t)
  have top : Render.root {} o (Site.ofTree (.element () tag a [.text () t])) =
      Render.node {} o [] true [] [] (.element {} tag a [kid]) := by
    have home : Render.rootOf (Site.ofTree (.element () tag a [.text () t])) =
        ⟨Render.unmark (.element () tag a [.text () t]), []⟩ := rfl
    simp only [Render.root, home, Site.prepared, prepared]
    rfl
  have content : Render.nodes {} o [⟨[], true⟩] true (.element {} tag a) [] [] [] [kid] start =
      .ok (markdown (settled t) []) start := by
    have ahead : (if (settled t).head? == some '.' then Render.lineSoFar [⟨[], true⟩, ⟨[], true⟩] else []) = [] := by
      split <;> rfl
    have written : Render.textOutput start o [⟨[], true⟩, ⟨[], true⟩] { shown := some (settled t) } t =
        markdown (settled t) [] := by
      change markdown (settled t) (if (settled t).head? == some '.' then _ else []) = _
      rw [ahead]
    change EStateM.Result.ok
      (join [] (Render.textOutput start o [⟨[], true⟩, ⟨[], true⟩] { shown := some (settled t) } t)) start = _
    rw [written, Render.join_free [] _ (by simp) free, List.nil_append]
  refine Render.conversion_ok o _ _ ?_
  rw [top]
  exact heading_joined o tag a listed {} [kid] [] [] _ content

end

theorem folded_ends (s : Chars) :
    (oneSpaced s).head?.any isBlank = false ∧ (oneSpaced s).getLast?.any isBlank = false := by
  have each (w : Chars) (listed : w ∈ words s) : w ≠ [] ∧ ∀ c ∈ w, isBlank c = false :=
    ⟨(words_some s).1 w listed, words_mem s w listed⟩
  unfold oneSpaced
  generalize words s = ws at each
  constructor
  · cases ws with
    | nil => rfl
    | cons w ws =>
        obtain ⟨c, w, rfl⟩ := List.exists_cons_of_ne_nil (each w List.mem_cons_self).1
        have solid := (each (c :: w) List.mem_cons_self).2 c List.mem_cons_self
        cases ws with
        | nil => simpa using solid
        | cons v ws => simpa [List.intercalate_cons_cons] using solid
  · rcases List.eq_nil_or_concat ws with rfl | ⟨ws, w, rfl⟩
    · rfl
    · obtain ⟨some, solid⟩ := each w (by simp)
      rw [List.concat_eq_append, intercalate_last, List.getLast?_append_of_ne_nil _ some,
        List.getLast?_eq_some_getLast some]
      exact solid _ (List.getLast_mem some)

theorem content_read (t : Chars) (shown : isBlankText t = false) :
    unclosed (oneSpaced (markdown (settled t) [])) = markdown (oneSpaced t) [] ↔
      ¬ Closes (words t) ∧ (BlockStart (oneSpaced t) → BlockStart (settled t)) := by
  have same : oneSpaced (settled t) = oneSpaced t := by rw [oneSpaced, words_settled, oneSpaced]
  have some : words t ≠ [] := fun none => by
    rw [(words_some t).2.mp none] at shown
    cases shown
  have kept := escaped_kept (words t) some fun w listed => ⟨(words_some t).1 w listed, words_mem t w listed⟩
  rw [← oneSpaced, ← markdown_line _ (folded_free t)] at kept
  rcases content_written (settled t) (settled_free t) with ⟨told, written⟩ | ⟨hidden, written, longer⟩
  · rw [same] at told written
    rw [written, kept]
    exact ⟨fun open_ => ⟨open_, told⟩, And.left⟩
  · rw [same] at hidden written longer
    rw [written]
    refine iff_of_false (fun whole => ?_) fun both => hidden both.2
    have bound := unclosed_length (escapeInner (oneSpaced t))
    rw [whole] at bound
    omega

-- The line of a heading stays whole when the output is trimmed, as it ends in a word.
theorem heading_line (signs : Nat) (s : Chars) (full : oneSpaced s ≠ []) :
    (∀ c ∈ List.replicate signs '#' ++ ' ' :: oneSpaced s, isBlank c = true → c = ' ') ∧
      Render.trimmed (join [] (Block.apart (List.replicate signs '#' ++ ' ' :: oneSpaced s))) =
        List.replicate signs '#' ++ ' ' :: oneSpaced s := by
  have blank : ∀ c ∈ List.replicate signs '#' ++ ' ' :: oneSpaced s, isBlank c = true → c = ' ' := by
    intro c member space
    rcases List.mem_append.mp member with sign | later
    · rw [List.eq_of_mem_replicate sign] at space
      cases space
    · rcases List.mem_cons.mp later with same | inside
      · exact same
      · refine (one_spaced_mem s c inside).resolve_right ?_
        simp [space]
  have stop : (List.replicate signs '#' ++ ' ' :: oneSpaced s).getLast?.any isBlank = false := by
    rw [List.getLast?_append_of_ne_nil _ (List.cons_ne_nil _ _), List.getLast?_cons_of_ne_nil full]
    exact (folded_ends s).2
  refine ⟨blank, ?_⟩
  rw [Render.trimmed_paragraph _ fun c member space => blank c member (collapsible_blank c space),
    trim_end_none _ _ stop]

theorem heading_reads_back_iff (o : Options) (level : Fin 6) (a : Attrs) (t : Chars) (shown : isBlankText t = false)
    (atx : o.headingStyle = .atx ∨ 2 ≤ level.val) :
    ∃ line content, Render.conversion o (.element () CommonMark.headingTags[level] a [.text () t]) = .ok line ∧
      (∀ c ∈ line, isBlank c = true → c = ' ') ∧ read? line = some (level.val + 1, content) ∧
      (content = markdown (oneSpaced t) [] ↔
        ¬ Closes (words t) ∧ (BlockStart (oneSpaced t) → BlockStart (settled t))) := by
  have deep : ∀ level : Fin 6, Block.headingLevel CommonMark.headingTags[level] = level.val + 1 := by decide
  have listed : ∀ level : Fin 6, CommonMark.headingTags[level] ∈ CommonMark.headingTags := by decide
  have text (s : Chars) : Block.headingText o.headingStyle (level.val + 1) s =
      List.replicate (level.val + 1) '#' ++ ' ' :: oneSpaced s := by
    have flat : (o.headingStyle = .setext && level.val + 1 < 3) = false := by
      rcases atx with style | low
      · simp [style]
      · simp
        omega
    simp [Block.headingText, flat]
  have seen : isBlankText (settled t) = false := by
    have none := (words_some (settled t)).2
    rwa [words_settled, (words_some t).2, shown, Bool.false_eq_true, false_iff, Bool.not_eq_true] at none
  obtain ⟨blank, whole⟩ := heading_line (level.val + 1) _ (content_some _ (settled_free t) seen)
  have converted := heading_converted o _ a t (listed level) shown
  rw [deep, text, whole] at converted
  have gapless (c : Option Char) (solid : c.any isBlank = false) : c.any isGap = false := by
    cases c with
    | none => rfl
    | some c => exact solid_gapless c solid
  obtain ⟨first, last⟩ := folded_ends (markdown (settled t) [])
  exact ⟨_, _, converted, blank, read_line (level.val + 1) _ (by omega) (by omega) (gapless _ first) (gapless _ last),
    content_read t shown⟩

-- The signs end a line of two words, and the tab before them is folded.
theorem folded_heading_read : ∃ line content,
    Render.conversion {} (.element () "h2" [] [.text () "1. a*\t#b".toList]) = .ok line ∧
    read? line = some (2, content) ∧ content = "1\\. a\\* #b".toList := by
  have shown : isBlankText "1. a*\t#b".toList = false := by decide
  obtain ⟨line, content, converted, -, read, told⟩ := heading_reads_back_iff {} 1 [] "1. a*\t#b".toList shown (.inl rfl)
  refine ⟨line, content, converted, read, (told.mpr ⟨?_, fun _ => ?_⟩).trans (by decide)⟩
  · rintro ⟨before, signs, whole, -⟩
    have last := congrArg (fun ws => ws.getLast?.any fun w => w.all (· == '#')) whole
    simp at last
    revert last
    decide
  · exact .number ['1'] _ (by simp) (List.forall_mem_singleton.mpr rfl) (.inl rfl)

theorem closing_signs_dropped : ¬ ∀ (level : Fin 6) (t : Chars), isBlankText t = false →
    ∃ line, Render.conversion {} (.element () CommonMark.headingTags[level] [] [.text () t]) = .ok line ∧
      read? line = some (level.val + 1, markdown (oneSpaced t) []) := by
  intro always
  obtain ⟨line, converted, read⟩ := always 0 "a #".toList (by decide)
  have written := heading_converted {} "h1" [] "a #".toList (by decide) (by decide)
  cases converted.symm.trans written
  revert read
  decide

end Heading

end Downmark
