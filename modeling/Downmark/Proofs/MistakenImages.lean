import Downmark.Proofs.HarmlessTrees
import Downmark.Proofs.ImageCalls
import Downmark.Proofs.OutlineText
import Downmark.Proofs.ResolvedReferences
/-!
Links behind exclamation marks. The mark is no character that is escaped, and the bracket of a link is no text, so a
paragraph of text and links begins an image where they meet. Main statement: these are all places where it does, but for
the targets that have both in themselves.
-/

set_option autoImplicit false

namespace Downmark

open Node Reference Whitespace

namespace Node

variable {μ ν : Type}

-- Text, or a link around nothing but text.
def isTextOrAnchor : Node μ → Bool
  | .element _ t _ ks => t == "a" && ks.all isText
  | n => n.isText

theorem stretches_marks (f : μ → ν) (ks : List (Node μ)) :
    (mapAllMarks f ks).all isTextOrAnchor = ks.all isTextOrAnchor := by
  rw [map_all_marks_map, List.all_map]
  refine congrArg ks.all (funext fun n => ?_)
  cases n with
  | element m t a ks => simp only [Function.comp_apply, mapMarks, isTextOrAnchor, texts_marks]
  | text | comment | document => rfl

end Node

def shownTexts : List Marked → Chars
  | .text m data :: rest => shown m data ++ shownTexts rest
  | _ :: rest => shownTexts rest
  | [] => []

/-- Whether an exclamation mark stands last once a text is added to what was there before. -/
def bangAfter (bang : Bool) (text : Chars) : Bool := text.getLast?.elim bang (· == '!')

/-- Whether the text right before a link ends in an exclamation mark and the link itself does not begin with a space;
`bang` tells that there is such a mark before all of the nodes. -/
def callsLink (bang : Bool) : List Marked → Bool
  | [] => false
  | .text m data :: rest => callsLink (bangAfter bang (shown m data)) rest
  | .element m t a ks :: rest =>
    if (attr "href" (.element m t a ks)).isEmpty then callsLink (bangAfter bang (shownTexts ks)) rest
    else bang && !(shownTexts ks).head?.any Text.isGap || callsLink false rest
  | _ :: rest => callsLink bang rest

/-! Texts -/

-- What is written of some shown text: it has the same ends.
structure Echo (text written : Chars) : Prop where
  worded : Worded written
  first : written.head?.any Text.isGap = text.head?.any Text.isGap
  last : written.getLast? = text.getLast?

theorem echo_nil : Echo [] [] := ⟨⟨.nil, by simp⟩, rfl, rfl⟩

theorem echo_empty (text written : Chars) (echo : Echo text written) : written = [] ↔ text = [] := by
  rw [← List.getLast?_eq_none_iff, echo.last, List.getLast?_eq_none_iff]

theorem echo_append (s t v w : Chars) (first : Echo s v) (next : Echo t w) : Echo (s ++ t) (v ++ w) := by
  refine ⟨worded_append v w first.worded next.worded, ?_, ?_⟩
  · cases v with
    | nil =>
        obtain rfl := (echo_empty s [] first).mp rfl
        exact next.first
    | cons c v =>
        obtain ⟨d, s, rfl⟩ :=
          List.exists_cons_of_ne_nil fun none => List.cons_ne_nil c v ((echo_empty s _ first).mpr none)
        exact first.first
  · rw [List.getLast?_append, List.getLast?_append, first.last, next.last]

theorem echo_bang (bang : Bool) (output text written : Chars) (echo : Echo text written)
    (even : ¬ Escape.Shielded output) (ends : text = [] → (EndsInBang output ↔ bang = true)) :
    EndsInBang (output ++ written) ↔ bangAfter bang text = true := by
  by_cases none : text = []
  · obtain rfl := (echo_empty text written echo).mpr none
    rw [List.append_nil, ends none, none]
    rfl
  · have some : written ≠ [] := fun empty => none ((echo_empty text written echo).mp empty)
    rw [bang_behind output written even some, worded_bang written echo.worded, echo.last, bangAfter,
      List.getLast?_eq_some_getLast none]
    simp

namespace Render

theorem text_echo (o : Options) (s : State) (uncoded : s.inCode = false) (flowing : s.inPreformatted = false)
    (opened : List Open) (m : Mark) (data : Chars) (regapped : Regapped (shown m data) data) :
    Echo (shown m data) (textOutput s o opened m data) := by
  have spelled := text_spelled o s uncoded flowing opened m data
  exact ⟨spelled_worded true _ _ spelled regapped.spaced, Escape.spelled_head true _ _ spelled,
    Escape.spelled_last _ true _ _ spelled⟩

theorem texts_echo (o : Options) (s : State) (uncoded : s.inCode = false) (flowing : s.inPreformatted = false)
    (outer : List Open) (isBlock : Bool) (head : Head) (path : List Step) (before : List Marked) (output : Chars)
    (ks : List Marked) (texts : ks.all isText = true) (noted : Noted ks) (spaced : Spaced output) :
    ∃ w, nodes {} o outer isBlock head path before output ks s = .ok (output ++ w) s ∧ Echo (shownTexts ks) w := by
  induction ks generalizing before output with
  | nil => exact ⟨[], by rw [List.append_nil]; rfl, echo_nil⟩
  | cons n rest ih =>
      obtain ⟨own, others⟩ := (Bool.and_eq_true _ _).mp texts
      obtain ⟨first, later⟩ := (noted_cons n rest).mp noted
      cases n with
      | text m data =>
          have echo := text_echo o s uncoded flowing (⟨output, isBlock⟩ :: outer) m data ((noted_text m data).mp first)
          have clean := muted_spaced _ echo.worded.muted
          obtain ⟨w, rendered, behind⟩ := ih (.text m data :: before) _ others later (spaced_append _ _ spaced clean)
          refine ⟨_ ++ w, ?_, echo_append _ _ _ w echo behind⟩
          rw [← List.append_assoc, ← rendered, ← join_free output _ (spaced_newline _ spaced) (spaced_newline _ clean)]
          rfl
      | comment | element | document => cases own

end Render

/-! Labels -/

namespace Reference

theorem number_readable (n : Nat) : Readable (Text.ofNat n) :=
  ⟨digits_muted _ (Text.of_nat_digits n), Text.of_nat_ne_nil n⟩

namespace Collector

theorem add_numbered_legible (c : Collector) (legible : c.Legible) (url : Chars) (title : Option Chars) :
    Readable (c.addNumbered url title).1.label ∧ (c.addNumbered url title).2.Legible := by
  unfold addNumbered
  cases found : c.numbers.lookup (url, title) with
  | some label =>
      exact ⟨legible.labels _ (legible.sound.numbered url title label found), legible⟩
  | none =>
      let d : Collector := { c with nextNumber := c.freeNumber + 1 }
      have issued : d.Legible := ⟨⟨legible.sound.keyed, legible.sound.apart, legible.sound.numbered⟩, legible.labels⟩
      have readable := number_readable c.freeNumber
      have kept := d.add_legible issued (Text.ofNat c.freeNumber) url title readable
      have numbered := c.add_numbered_keeps legible.sound url title
      have sound := numbered.sound
      unfold addNumbered at sound
      rw [found] at sound
      exact ⟨d.add_readable issued _ url title readable, sound, kept.labels⟩

end Collector

-- What the collector holds once it was asked for a label to one more target.
structure Defined (c : Collector) (target : Target) (d : Collector) : Prop where
  legible : d.Legible
  targets : ∀ t, (∃ link ∈ d.toList, link.target = t) ↔ (∃ link ∈ c.toList, link.target = t) ∨ t = target

theorem noted_defined (c d : Collector) (link : Link) (legible : d.Legible)
    (stored : d.toList = noted c.toList (some link)) : Defined c link.target d := by
  refine ⟨legible, fun t => ?_⟩
  have listed (other : Link) : other ∈ d.toList ↔ other ∈ c.toList ∨ other = link := by
    rw [stored, noted]
    split
    · rename_i member
      exact ⟨.inl, fun either => either.elim id fun same => same ▸ member⟩
    · simp
  simp only [listed, or_and_right, exists_or, exists_eq_left]
  exact or_congr_right eq_comm

end Reference

namespace Render

-- What is written behind the text of a link.
structure LinkSuffix (o : Options) (target : Target) (s : State) (suffix : Chars) (u : State) : Prop where
  calls : CallsImage suffix ↔ o.linkStyle = .inlined ∧ Loud target
  closes : ∃ front c, ']' :: suffix = front ++ [c] ∧ c ∈ [')', ']']
  legible : u.references.Legible
  targets : ∀ t, (∃ link ∈ u.references.toList, link.target = t) ↔
    (∃ link ∈ s.references.toList, link.target = t) ∨ o.linkStyle = .referenced ∧ t = target
  counters : u.counters = s.counters

theorem suffix_given (text url : Chars) (title : Option Chars) (style : LabelStyle) (muted : Muted text) (s : State)
    (legible : s.references.Legible) : ∃ suffix u, Link.referenceSuffix text url title style s = .ok suffix u ∧
      (suffix = [] ∨ ∃ label, suffix = '[' :: label ++ [']'] ∧ Muted label) ∧
      Defined s.references (url, title) u.references ∧ u.counters = s.counters := by
  unfold Link.referenceSuffix
  by_cases numbered : style = .full ∨ Text.isBlankText text = true
  · obtain ⟨readable, kept⟩ := s.references.add_numbered_legible legible url title
    obtain ⟨u, asked, held, counters⟩ := ask_answered [] (fun references => references.addNumbered url title) s
    refine ⟨_, u, ?_, .inr ⟨_, rfl, readable.muted⟩, ?_, counters⟩
    · rw [if_pos (by simpa using numbered), bind_of_ok _ _ s u _ asked]
      rfl
    · exact held ▸ noted_defined _ _ _ kept (s.references.add_numbered_keeps legible.sound url title).stored
  · have seen : Text.isBlankText text = false := by
      rw [not_or, Bool.not_eq_true] at numbered
      exact numbered.2
    have readable : Readable text := ⟨muted, by rintro rfl; cases seen⟩
    obtain ⟨u, asked, held, counters⟩ := ask_answered text (fun references => references.add text url title) s
    have kept := s.references.add_legible legible text url title readable
    have defined : Defined s.references (url, title) u.references :=
      held ▸ noted_defined _ _ _ kept (s.references.add_keeps legible.sound text url title).stored
    have label := s.references.add_readable legible text url title readable
    rw [if_neg (by simpa using numbered), bind_of_ok _ _ s u _ asked]
    split
    · exact ⟨_, u, rfl, .inr ⟨_, rfl, label.muted⟩, defined, counters⟩
    · refine ⟨_, u, rfl, ?_, defined, counters⟩
      split
      · exact .inr ⟨[], rfl, .nil⟩
      · exact .inl rfl

def inlineRule : Rule :=
  { name := "inline-link", filter := .holds fun site o => o.linkStyle = .inlined && Link.isLink site,
    replacement := Link.inlineLink }

theorem inline_anchor_found (o : Options) (inlined : o.linkStyle = .inlined) (m : Mark) (a : Attrs) (ks : List Marked)
    (path : List Step) (given : (attr "href" (.element m "a" a ks)).isEmpty = false) :
    ({} : RuleTable).find ⟨.element m "a" a ks, path⟩ o false = .ok inlineRule := by
  have link : Link.isLink ⟨.element m "a" a ks, path⟩ = true := by
    rw [Link.isLink, given]
    rfl
  simp [RuleTable.find, RuleTable.inOrder, CommonMark.rules, CommonMark.headingTags, RuleTable.firstClaim, Rule.claims,
    Filter.holds, Site.tag, Node.tag, CommonMark.isCodeBlock, Code.isBlock, CommonMark.isPreformatted, Node.isNamed,
    inlined, link, inlineRule]

theorem link_suffixed (o : Options) (m : Mark) (a : Attrs) (ks : List Marked) (path : List Step)
    (solid : m.blank = false) (given : (attr "href" (.element m "a" a ks)).isEmpty = false) (core : Chars)
    (muted : Muted core) (s : State) (legible : s.references.Legible) :
    ∃ rule suffix u, ({} : RuleTable).find ⟨.element m "a" a ks, path⟩ o m.blank = .ok rule ∧
      rule.rendersChildren = true ∧
      rule.replacement core ⟨.element m "a" a ks, path⟩ o s = .ok ('[' :: core ++ ']' :: suffix) u ∧
      LinkSuffix o (attr "href" (.element m "a" a ks), Link.title? (.element m "a" a ks)) s suffix u := by
  cases style : o.linkStyle with
  | inlined =>
      let url := attr "href" (.element m "a" a ks)
      let title := Link.title? (.element m "a" a ks)
      refine ⟨inlineRule, Link.target url title, s, solid ▸ inline_anchor_found o style m a ks path given, rfl, rfl, ?_,
        ⟨']' :: '(' :: Link.destination url ++ titleSuffix title, ')', rfl, by simp⟩, legible, by simp [style], rfl⟩
      rw [calls_target, style, and_iff_right rfl]
  | referenced =>
      have found := anchor_found o style m a ks path solid
      rw [given, if_neg Bool.false_ne_true] at found
      obtain ⟨suffix, u, answered, bracketed, defined, counters⟩ := suffix_given core
        (attr "href" (.element m "a" a ks)) (Link.title? (.element m "a" a ks)) o.labelStyle muted s legible
      refine ⟨referenceRule, suffix, u, found, rfl, bind_of_ok _ _ s u _ answered, ?_, ?_, defined.legible,
        by simpa [style] using defined.targets, counters⟩
      · refine iff_of_false ?_ (by simp [style])
        rcases bracketed with rfl | ⟨label, rfl, quiet⟩
        · exact calls_nil
        · rw [calls_last _ _ (by decide), calls_bracket]
          exact muted_silent label quiet
      · rcases bracketed with rfl | ⟨label, rfl, -⟩
        · exact ⟨[], ']', rfl, by simp⟩
        · exact ⟨']' :: '[' :: label, ']', rfl, by simp⟩

-- Output of a paragraph so far: whether a link stands right behind a mark in it, and the targets of its links.
structure Carrying (o : Options) (called : Prop) (ts : List Target) (output : Chars) (s : State) : Prop where
  even : ¬ Escape.Shielded output
  calls : CallsImage output ↔ called ∨ o.linkStyle = .inlined ∧ ∃ t ∈ ts, Loud t
  first : output.head?.any isLineStart = false
  last : output.getLast?.any Text.isNewline = false
  seen : ts ≠ [] → Seen output
  uncoded : s.inCode = false
  flowing : s.inPreformatted = false
  legible : s.references.Legible
  targets : ∀ t, (∃ link ∈ s.references.toList, link.target = t) ↔ o.linkStyle = .referenced ∧ t ∈ ts

section

variable (o : Options) (called : Prop) (ts : List Target) (output : Chars) (s : State)
  (before : Carrying o called ts output s)

include before

theorem carrying_joined (w : Chars) (first : w.head? ≠ some '\n') : join output w = output ++ w := by
  refine join_plain output w before.last ?_
  cases shape : w.head? with
  | none => rfl
  | some c =>
      rw [shape] at first
      simpa [Text.isNewline] using first

theorem carrying_words (w : Chars) (worded : Worded w) : Carrying o called ts (output ++ w) s := by
  obtain ⟨begins, ends⟩ := spaced_ends w (muted_spaced w worded.muted)
  refine ⟨even_append _ _ before.even (muted_even w worded.muted), ?_, ?_, ?_, fun some => ?_, before.uncoded,
    before.flowing, before.legible, before.targets⟩
  · rw [calls_append output w before.even, before.calls]
    simp [muted_silent w worded.muted, muted_head w worded.muted]
  · cases output with
    | nil => exact begins
    | cons c output => exact before.first
  · rw [List.getLast?_append]
    cases last : w.getLast? with
    | none => exact before.last
    | some c => simpa [last] using ends
  · exact seen_part output _ (fun c member _ => List.mem_append_left w member) (before.seen some)

theorem carrying_link (target : Target) (core suffix : Chars) (u : State) (inside : Worded core)
    (given : LinkSuffix o target s suffix u) :
    Carrying o (called ∨ EndsInBang output) (ts ++ [target]) (output ++ ('[' :: core ++ ']' :: suffix)) u ∧
      ¬ EndsInBang (output ++ ('[' :: core ++ ']' :: suffix)) := by
  obtain ⟨front, c, shape, closing⟩ := given.closes
  have ends : output ++ ('[' :: core ++ ']' :: suffix) = output ++ '[' :: core ++ front ++ [c] := by
    rw [shape]
    simp
  have other : c ≠ '\\' ∧ c ≠ '!' ∧ Text.isNewline c = false := by
    rcases (by simpa using closing : c = ')' ∨ c = ']') with rfl | rfl <;> decide
  have calls : CallsImage ('[' :: core ++ ']' :: suffix) ↔ o.linkStyle = .inlined ∧ Loud target := by
    rw [calls_apart _ _ _ (by decide), calls_bracket, or_iff_right (muted_silent core inside.muted), given.calls]
  have code : u.codeDepth = s.codeDepth := congrArg Counters.code given.counters
  have preformatted : u.preformattedDepth = s.preformattedDepth := congrArg Counters.preformatted given.counters
  refine ⟨⟨?_, ?_, ?_, ?_, fun _ => ⟨'[', by simp, rfl⟩, ?_, ?_, given.legible, fun t => ?_⟩, ?_⟩
  · rw [ends]
    exact even_last _ c other.1
  · have loud : (∃ t ∈ ts ++ [target], Loud t) ↔ (∃ t ∈ ts, Loud t) ∨ Loud target := by
      simp [or_and_right, exists_or]
    rw [calls_append output _ before.even, before.calls, calls, loud, List.cons_append, List.head?_cons,
      and_iff_left rfl, and_or_left, or_comm (b := EndsInBang output), or_or_or_comm]
  · cases output with
    | nil => rfl
    | cons d output => exact before.first
  · rw [ends, List.getLast?_concat]
    exact other.2.2
  · rw [State.inCode, code]
    exact before.uncoded
  · rw [State.inPreformatted, preformatted]
    exact before.flowing
  · rw [given.targets, before.targets, List.mem_append, List.mem_singleton, and_or_left]
  · rw [ends, bang_last]
    exact fun both => other.2.1 both.1

end

theorem carrying_called (o : Options) (called other : Prop) (ts : List Target) (output : Chars) (s : State)
    (same : called ↔ other) (carrying : Carrying o called ts output s) : Carrying o other ts output s :=
  propext same ▸ carrying

-- A gap that is left out at the start stands at the end of the output already.
theorem leading_bang (output leading w : Chars) (even : ¬ Escape.Shielded output)
    (gaps : ∀ c ∈ leading, Text.isGap c) (inside : Worded leading) :
    EndsInBang (output ++ ((if endsInGap output then [] else leading) ++ w)) ↔
      EndsInBang (output ++ (leading ++ w)) := by
  split
  · rename_i ends
    rw [List.nil_append]
    by_cases some : w = []
    · subst some
      rw [ends_in_gap] at ends
      have quiet : ¬ EndsInBang output := by
        rintro ⟨before, rfl, -⟩
        rw [List.getLast?_concat] at ends
        cases ends
      rw [List.append_nil, List.append_nil, gaps_bang output leading even gaps]
      exact iff_of_false quiet fun both => quiet both.1
    · rw [← List.append_assoc, bang_behind output w even some,
        bang_behind _ w (even_append _ _ even (muted_even _ inside.muted)) some]
  · rfl

-- A text comes next that is shown with a space first.
def StartsSpaced (ks : List Marked) : Prop :=
  ∃ m data rest, ks = .text m data :: rest ∧ (shown m data).head? = some ' '

theorem next_starts (o : Options) (s : State) (uncoded : s.inCode = false) (flowing : s.inPreformatted = false)
    (head : Head) (path : List Step) (before ks : List Marked) (n : Marked) (stretches : ks.all isTextOrAnchor = true)
    (next : s.nextStartsWithSpace o ⟨n, Site.pathTo head path before ks n⟩ = true) : StartsSpaced ks := by
  have each (k : Marked) (member : k ∈ ks) : k.isTextOrAnchor = true := List.all_eq_true.mp stretches k member
  have level (k : Marked) (member : k ∈ ks) : isBlock k = false ∧ k.tag ≠ "br" := by
    have own := each k member
    cases k with
    | text => exact ⟨rfl, by simp [Node.tag]⟩
    | element m t a ks =>
        obtain rfl : t = "a" := by simpa using ((Bool.and_eq_true _ _).mp own).1
        exact ⟨rfl, by simp [Node.tag]⟩
    | comment | document => cases own
  obtain ⟨m, data, rest, shape, begins⟩ :=
    next_text o s (text_shown o s uncoded flowing) head path before ks n level next
  cases ks with
  | nil => cases shape
  | cons k more =>
      have silent : k.isComment = false := by
        have own := each k List.mem_cons_self
        cases k with
        | comment => cases own
        | text | element | document => rfl
      rw [List.dropWhile_cons_of_neg (by simp [silent])] at shape
      exact ⟨m, data, rest, shape, begins⟩

-- What is written of an element around texts, where the flag tells that a space comes right behind it.
structure AnchorParts (output : Chars) (bang : Bool) (ks : List Marked) (next : Bool) (leading core trailing : Chars) :
    Prop where
  front : Worded leading
  leads : ∀ c ∈ leading, Text.isGap c
  inside : Worded core
  behind : Worded trailing
  trails : ∀ c ∈ trailing, Text.isGap c
  meets : EndsInBang (output ++ leading) ↔ (bang && !(shownTexts ks).head?.any Text.isGap) = true
  ends : next = true ∨ (EndsInBang (output ++ (leading ++ core ++ trailing)) ↔ bangAfter bang (shownTexts ks) = true)

theorem echo_parts (output : Chars) (bang : Bool) (ks : List Marked) (next : Bool) (content : Chars)
    (echo : Echo (shownTexts ks) content) (even : ¬ Escape.Shielded output) (told : EndsInBang output ↔ bang = true) :
    AnchorParts output bang ks next (if endsInGap output then [] else (flanking content).1) (flanking content).2.1
      (if !(flanking content).2.2.isEmpty && next then [] else (flanking content).2.2) := by
  obtain ⟨first, inside, last⟩ := flanking_worded content echo.worded
  obtain ⟨leads, trails⟩ := flanking_gaps content
  have whole := flanking_whole content
  have bare : (flanking content).1 = [] ↔ (shownTexts ks).head?.any Text.isGap = false :=
    (Text.take_empty Text.isGap content).trans (by rw [echo.first])
  have leading (w : Chars) := leading_bang output (flanking content).1 w even leads first
  refine ⟨?_, ?_, inside, ?_, ?_, ?_, ?_⟩
  · split
    · exact echo_nil.worded
    · exact first
  · split
    · simp
    · exact leads
  · split
    · exact echo_nil.worded
    · exact last
  · split
    · simp
    · exact trails
  · have same := leading []
    rw [List.append_nil, List.append_nil, gaps_bang output _ even leads, told, bare] at same
    rw [same, Bool.and_eq_true, Bool.not_eq_true']
  · cases next with
    | true => exact .inl rfl
    | false =>
        have behind := leading ((flanking content).2.1 ++ (flanking content).2.2)
        rw [← List.append_assoc (flanking content).1, whole] at behind
        rw [Bool.and_false, if_neg Bool.false_ne_true, List.append_assoc, behind]
        exact .inr (echo_bang bang output _ content echo even fun _ => told)

theorem text_carries (o : Options) (outer : List Open) (isBlock : Bool) (path : List Step) (output : Chars) (m : Mark)
    (data : Chars) (rest : List Marked) (regapped : Regapped (shown m data) data) (called : Prop) (ts : List Target)
    (s : State) (before : Carrying o called ts output s) (bang : Bool)
    (told : StartsSpaced (.text m data :: rest) ∨ (EndsInBang output ↔ bang = true)) :
    ∃ out, node {} o outer isBlock path output (.text m data) s = .ok out s ∧ Carrying o called ts out s ∧
      (EndsInBang out ↔ bangAfter bang (shown m data) = true) := by
  have echo := text_echo o s before.uncoded before.flowing (⟨output, isBlock⟩ :: outer) m data regapped
  have joined := carrying_joined o called ts output s before _ fun starts =>
    spaced_newline _ (muted_spaced _ echo.worded.muted) (List.mem_of_head? starts)
  refine ⟨_, by rw [← joined]; rfl, carrying_words o called ts output s before _ echo.worded,
    echo_bang bang output (shown m data) _ echo before.even fun empty => told.resolve_left ?_⟩
  rintro ⟨m', data', more, shape, begins⟩
  cases (List.cons.inj shape).1
  rw [empty] at begins
  cases begins

section

variable (o : Options) (outer : List Open) (isBlock : Bool) (path : List Step) (output : Chars) (m : Mark) (a : Attrs)
  (ks : List Marked) (solid : m.blank = false) (texts : ks.all isText = true) (noted : Noted ks)
  (prose : ∀ step ∈ path, step.head.tag ≠ "code") (called : Prop) (ts : List Target) (s : State)
  (before : Carrying o called ts output s) (bang : Bool) (told : EndsInBang output ↔ bang = true)

include texts noted prose before told

theorem anchor_written : ∃ leading core trailing, AnchorParts output bang ks
    (s.nextStartsWithSpace o ⟨.element m "a" a ks, path⟩) leading core trailing ∧ ∀ rule inner u,
      ({} : RuleTable).find ⟨.element m "a" a ks, path⟩ o m.blank = .ok rule → rule.rendersChildren = true →
      rule.replacement core ⟨.element m "a" a ks, path⟩ o s = .ok inner u →
      node {} o outer isBlock path output (.element m "a" a ks) s =
        .ok (join output (leading ++ inner ++ trailing)) u := by
  obtain ⟨content, rendered, echo⟩ := texts_echo o s before.uncoded before.flowing (⟨output, isBlock⟩ :: outer)
    (isBlockTag "a") (.element m "a" a) path [] [] ks texts noted (by simp [Spaced])
  refine ⟨_, _, _, echo_parts output bang ks _ content echo before.even told, fun rule inner u found renders made => ?_⟩
  exact node_replaced {} o outer isBlock path output m "a" a ks rule content _ found renders rfl rendered
    (replace_inner rule ⟨.element m "a" a ks, path⟩ o rfl (prose_site o _ path rfl prose) content output inner s u made)
    rfl

include solid

theorem anchor_words (targetless : (attr "href" (.element m "a" a ks)).isEmpty = true) :
    ∃ out, node {} o outer isBlock path output (.element m "a" a ks) s = .ok out s ∧ Carrying o called ts out s ∧
      (s.nextStartsWithSpace o ⟨.element m "a" a ks, path⟩ = true ∨
        (EndsInBang out ↔ bangAfter bang (shownTexts ks) = true)) := by
  obtain ⟨leading, core, trailing, parts, written⟩ := anchor_written o outer isBlock path output m a ks texts noted
    prose called ts s before bang told
  have plain : Plain "a" a := ⟨by decide, by decide, by decide, fun _ => List.isEmpty_iff.mp targetless⟩
  have found := inline_found o m "a" a ks path fun _ => plain
  rw [solid, if_neg Bool.false_ne_true, ← solid] at found
  have worded := worded_append _ _ (worded_append _ _ parts.front parts.inside) parts.behind
  have joined := carrying_joined o called ts output s before _ fun starts =>
    spaced_newline _ (muted_spaced _ worded.muted) (List.mem_of_head? starts)
  exact ⟨_, (written _ core s found rfl rfl).trans (by rw [joined]),
    carrying_words o called ts output s before _ worded, parts.ends⟩

theorem anchor_link (given : (attr "href" (.element m "a" a ks)).isEmpty = false) :
    ∃ out u, node {} o outer isBlock path output (.element m "a" a ks) s = .ok out u ∧
      Carrying o (called ∨ (bang && !(shownTexts ks).head?.any Text.isGap) = true)
        (ts ++ [(attr "href" (.element m "a" a ks), Link.title? (.element m "a" a ks))]) out u ∧
      ¬ EndsInBang out := by
  obtain ⟨leading, core, trailing, parts, written⟩ := anchor_written o outer isBlock path output m a ks texts noted
    prose called ts s before bang told
  obtain ⟨rule, suffix, u, found, renders, made, suffixed⟩ := link_suffixed o m a ks path solid given core
    parts.inside.muted s before.legible
  have opened := carrying_words o called ts output s before leading parts.front
  obtain ⟨carrying, quiet⟩ := carrying_link o called ts _ s opened _ core suffix u parts.inside suffixed
  have closed := carrying_words o _ _ _ u carrying trailing parts.behind
  have first : (leading ++ ('[' :: core ++ ']' :: suffix) ++ trailing).head? ≠ some '\n' := by
    cases leading with
    | nil => simp
    | cons c leading =>
        rintro starts
        obtain rfl : c = '\n' := by simpa using starts
        exact absurd (parts.leads '\n' List.mem_cons_self) (by decide)
  have place : join output (leading ++ ('[' :: core ++ ']' :: suffix) ++ trailing) =
      output ++ leading ++ ('[' :: core ++ ']' :: suffix) ++ trailing := by
    rw [carrying_joined o called ts output s before _ first]
    simp
  refine ⟨_, u, (written rule _ u found renders made).trans (by rw [place]),
    carrying_called o _ _ _ _ u (or_congr_right parts.meets) closed, ?_⟩
  rw [gaps_bang _ trailing carrying.even parts.trails]
  exact fun both => quiet both.1

end

theorem stretches_carry (o : Options) (outer : List Open) (isBlock : Bool) (head : Head) (path : List Step)
    (passed : List Marked) (output : Chars) (ks : List Marked) (stretches : ks.all isTextOrAnchor = true)
    (noted : Noted ks) (flagged : FlaggedAll ks) (other : head.tag ≠ "code")
    (prose : ∀ step ∈ path, step.head.tag ≠ "code") (called : Prop) (ts : List Target) (s : State)
    (before : Carrying o called ts output s) (bang : Bool)
    (told : StartsSpaced ks ∨ (EndsInBang output ↔ bang = true)) :
    ∃ out u, nodes {} o outer isBlock head path passed output ks s = .ok out u ∧
      Carrying o (called ∨ callsLink bang ks = true) (ts ++ targetsOf ks) out u := by
  induction ks generalizing passed output called ts s bang with
  | nil =>
      refine ⟨output, s, rfl, ?_⟩
      rw [targetsOf, List.append_nil]
      exact carrying_called o _ _ ts output s (by simp [callsLink]) before
  | cons n rest ih =>
      obtain ⟨own, others⟩ := (Bool.and_eq_true _ _).mp stretches
      obtain ⟨first, later⟩ := (noted_cons n rest).mp noted
      have around := path_prose head path passed rest n other prose
      rw [nodes]
      cases n with
      | text m data =>
          obtain ⟨out, written, carrying, ends⟩ := text_carries o outer isBlock
            (Site.pathTo head path passed rest (.text m data)) output m data rest ((noted_text m data).mp first) called
            ts s before bang told
          obtain ⟨final, u, finished, done⟩ := ih (.text m data :: passed) out others later flagged.2 called ts s
            carrying (bangAfter bang (shown m data)) (.inr ends)
          exact ⟨final, u, (bind_of_ok _ _ s s out written).trans finished, done⟩
      | element m t a ks =>
          obtain ⟨anchor, texts⟩ := (Bool.and_eq_true _ _).mp own
          obtain rfl : t = "a" := by simpa using anchor
          have solid : m.blank = false := by
            rw [flagged.1.1, element_solid]
            rfl
          have exactly : EndsInBang output ↔ bang = true := told.resolve_left (by
            rintro ⟨m', data', more, shape, -⟩
            exact absurd (List.cons.inj shape).1 (by simp))
          have inside := (noted_element m "a" a ks).mp first
          rw [targetsOf, anchor_targets m a ks texts]
          cases href : (attr "href" (.element m "a" a ks)).isEmpty with
          | true =>
              obtain ⟨out, written, carrying, ends⟩ := anchor_words o outer isBlock _ output m a ks solid texts inside
                around called ts s before bang exactly href
              obtain ⟨final, u, finished, done⟩ := ih (.element m "a" a ks :: passed) out others later flagged.2 called
                ts s carrying (bangAfter bang (shownTexts ks)) (ends.imp_left
                  (next_starts o s before.uncoded before.flowing head path passed rest _ others))
              refine ⟨final, u, (bind_of_ok _ _ s s out written).trans finished, ?_⟩
              rw [callsLink, href, if_pos rfl, if_pos rfl, List.nil_append]
              exact done
          | false =>
              obtain ⟨out, t, written, carrying, quiet⟩ := anchor_link o outer isBlock _ output m a ks solid texts
                inside around called ts s before bang exactly href
              obtain ⟨final, u, finished, done⟩ := ih (.element m "a" a ks :: passed) out others later flagged.2 _ _ t
                carrying false (.inr (iff_of_false quiet Bool.false_ne_true))
              refine ⟨final, u, (bind_of_ok _ _ s t out written).trans finished, ?_⟩
              rw [callsLink, href, if_neg Bool.false_ne_true, if_neg Bool.false_ne_true, ← List.append_assoc]
              exact carrying_called o _ _ _ final u (by rw [Bool.or_eq_true, or_assoc]) done
      | comment | document => cases own

theorem texts_silent (bang : Bool) (ks : List Marked) (texts : ks.all isText = true) : callsLink bang ks = false := by
  induction ks generalizing bang with
  | nil => rfl
  | cons n rest ih =>
      obtain ⟨own, others⟩ := (Bool.and_eq_true _ _).mp texts
      cases n with
      | text m data => exact ih _ others
      | comment | element | document => cases own

-- An anchor is never blank, so where nothing is solid there is only text.
theorem unseen_texts (ks : List Marked) (stretches : ks.all isTextOrAnchor = true) (unseen : ks.any isSolid = false) :
    ks.all isText = true := by
  rw [List.all_eq_true] at stretches ⊢
  intro n member
  have own := stretches n member
  cases n with
  | text => rfl
  | comment | document => cases own
  | element m t a ks' =>
      obtain rfl : t = "a" := by simpa using ((Bool.and_eq_true _ _).mp own).1
      have solid : isSolid (.element m "a" a ks') = true := by rw [element_solid]; rfl
      rw [List.any_eq_false] at unseen
      exact absurd solid (unseen _ member)

theorem carrying_begun (o : Options) (s : State) (uncoded : s.inCode = false) (flowing : s.inPreformatted = false)
    (unasked : s.references = {}) : Carrying o False [] [] s where
  even := Escape.shielded_nil
  calls := by simp [calls_nil]
  first := rfl
  last := rfl
  seen := by simp
  uncoded := uncoded
  flowing := flowing
  legible := unasked ▸ Collector.new_legible
  targets t := by simp [unasked, Collector.toList]

theorem carrying_defined (o : Options) (called : Prop) (ts : List Target) (content : Chars) (u : State)
    (carrying : Carrying o called ts content u) :
    (u.references.toList ≠ [] → Text.trimEnd Text.isBlank content ≠ []) ∧
      (CallsImage (Text.trimEnd Text.isBlank content ++ definitionBlock u.references.toList) ↔
        called ∨ ∃ t ∈ ts, Loud t) := by
  constructor
  · intro some gone
    obtain ⟨link, listed⟩ := List.exists_mem_of_ne_nil _ some
    obtain ⟨-, member⟩ := (carrying.targets link.target).mp ⟨link, listed, rfl⟩
    obtain ⟨c, inside, solid⟩ := carrying.seen (List.ne_nil_of_mem member)
    rw [Text.trim_end_empty _ _ gone c inside] at solid
    cases solid
  · obtain ⟨run, whole, blank⟩ := Text.trim_end_run Text.isBlank content
    have kept : CallsImage (Text.trimEnd Text.isBlank content) ↔ CallsImage content := by
      conv_rhs => rw [whole]
      refine (calls_run _ run fun c member => ?_).symm
      rintro rfl
      cases blank '[' member
    have defined : (∃ link ∈ u.references.toList, CallsImage link.label ∨ Loud link.target) ↔
        o.linkStyle = .referenced ∧ ∃ t ∈ ts, Loud t := by
      constructor
      · rintro ⟨link, listed, calls | loud⟩
        · exact absurd calls (muted_silent _ (carrying.legible.labels link listed).muted)
        · obtain ⟨referenced, member⟩ := (carrying.targets link.target).mp ⟨link, listed, rfl⟩
          exact ⟨referenced, _, member, loud⟩
      · rintro ⟨referenced, t, member, loud⟩
        obtain ⟨link, listed, rfl⟩ := (carrying.targets t).mpr ⟨referenced, member⟩
        exact ⟨link, listed, .inr loud⟩
    rw [calls_defined, kept, carrying.calls, defined, or_assoc, ← or_and_right]
    cases o.linkStyle <;> simp

theorem paragraph_calls (o : Options) (s : State) (uncoded : s.inCode = false) (flowing : s.inPreformatted = false)
    (unasked : s.references = {}) (m : Mark) (a : Attrs) (ks : List Marked) (stretches : ks.all isTextOrAnchor = true)
    (noted : Noted ks) (flagged : Flagged (.element m "p" a ks)) :
    ∃ out u, node {} o [] true [] [] (.element m "p" a ks) s = .ok out u ∧
      (u.references.toList ≠ [] → trimmed out ≠ []) ∧
      (CallsImage (trimmed out ++ definitionBlock u.references.toList) ↔
        callsLink false ks = true ∨ ∃ t ∈ targetsOf ks, Loud t) := by
  obtain ⟨content, u, rendered, carrying⟩ := stretches_carry o [⟨[], true⟩] true (.element m "p" a) [] [] [] ks
    stretches noted flagged.2 (by simp [Head.tag]) (by simp) False [] s (carrying_begun o s uncoded flowing unasked)
    false (.inr (by simpa using fun ends => by obtain ⟨before, shape, -⟩ := ends; simp at shape))
  have joined := paragraph_joined o s [] true [] m a ks [] content rendered
  cases blank : m.blank with
  | false =>
      rw [blank, if_neg Bool.false_ne_true] at joined
      obtain ⟨written, calls⟩ := carrying_defined o _ _ content u carrying
      refine ⟨_, u, joined, ?_⟩
      rw [trimmed_apart content carrying.first]
      exact ⟨written, by simpa using calls⟩
  | true =>
      have unseen := flagged_hollow m "p" a ks flagged blank
      have targetless := blank_targets_of ks unseen
      have none : u.references.toList = [] := by
        refine List.eq_nil_iff_forall_not_mem.mpr fun link listed => ?_
        obtain ⟨-, member⟩ := (carrying.targets link.target).mp ⟨link, listed, rfl⟩
        rw [targetless] at member
        cases member
      have empty : trimmed (join [] ['\n', '\n']) = [] := rfl
      rw [blank, if_pos rfl] at joined
      refine ⟨_, u, joined, by simp [none], ?_⟩
      rw [empty, none, texts_silent false ks (unseen_texts ks stretches unseen), targetless]
      exact iff_of_false calls_nil (by simp)

/-- The output begins an image just where a link stands right behind the exclamation mark of a text, or where a target
has the mark and the bracket in itself. -/
theorem image_begins_iff (o : Options) (a : Attrs) (ks : List Tree) (stretches : ks.all isTextOrAnchor = true) :
    ∃ out, conversion o (.element () "p" a ks) = .ok out ∧
      (CallsImage out ↔ callsLink false (prepare o (unmark (.element () "p" a ks))).kids = true ∨
        ∃ target ∈ targetsOf ks, Loud target) := by
  obtain ⟨m, below, prepared, bared⟩ := bare_element_shape _ "p" a ks
    ((prepare_bare o (unmark (.element () "p" a ks))).trans (bare_marked _ _))
  have noted := open_noted o (.element () "p" a ks)
  have flagged := prepared_flags o (unmark (.element () "p" a ks))
  rw [prepared] at noted flagged ⊢
  have marked : below.all isTextOrAnchor = true := by rw [← stretches, ← bared, bareAll, stretches_marks]
  obtain ⟨out, u, written, some, calls⟩ := paragraph_calls o (logged (.element () "p" a ks)) rfl rfl rfl m a below
    marked ((noted_element m "p" a below).mp noted) flagged
  obtain ⟨t, finished⟩ := finish_defined out u some
  refine ⟨_, ?_, by rwa [← bared, bare_all_targets]⟩
  have started : site {} o (Site.ofTree (.element () "p" a ks)) {} =
      (root {} o (Site.ofTree (.element () "p" a ks)) >>= finish) (logged (.element () "p" a ks)) := rfl
  have top : root {} o (Site.ofTree (.element () "p" a ks)) =
      node {} o [] true [] [] (prepare o (unmark (.element () "p" a ks))) := rfl
  rw [conversion, answer, started, top, prepared, bind_of_ok _ _ _ _ out written, finished]

-- The mark of the first text is parted from its link by a space, that of the second is not.
def markedLinks : List Tree :=
  [.text () ['a', '!'], .element () "a" [("href", ['x'])] [.text () [' ', 'b', '!']],
    .text () ['!'], .element () "a" [("href", ['y'])] [.text () ['c']]]

theorem marked_link_image : markedLinks.all isTextOrAnchor = true ∧ ∃ out,
    conversion { linkStyle := .referenced, labelStyle := .shortcut } (.element () "p" [] markedLinks) = .ok out ∧
      out = "a! [b!]![c]\n\n[b!]: x\n[c]: y".toList ∧ CallsImage out := by
  have stretches : markedLinks.all isTextOrAnchor = true := rfl
  obtain ⟨out, written, calls⟩ :=
    image_begins_iff { linkStyle := .referenced, labelStyle := .shortcut } [] markedLinks stretches
  have evaluated : (conversion { linkStyle := .referenced, labelStyle := .shortcut }
      (.element () "p" [] markedLinks)).toOption = some "a! [b!]![c]\n\n[b!]: x\n[c]: y".toList := by decide +kernel
  rw [written] at evaluated
  exact ⟨stretches, out, written, Option.some.inj evaluated, calls.mpr (.inl (by decide +kernel))⟩

theorem bang_makes_image : ¬ ∀ (o : Options) (a : Attrs) (ks : List Tree), ks.all isTextOrAnchor = true →
    ∃ out, conversion o (.element () "p" a ks) = .ok out ∧ ¬ CallsImage out := by
  intro always
  obtain ⟨out, written, silent⟩ := always {} []
    [.text () ['!'], .element () "a" [("href", ['x'])] [.text () ['y']]] rfl
  have evaluated : (conversion {} (.element () "p" []
      [.text () ['!'], .element () "a" [("href", ['x'])] [.text () ['y']]])).toOption =
      some ['!', '[', 'y', ']', '(', 'x', ')'] := by decide +kernel
  rw [written] at evaluated
  exact silent ⟨[], ['y', ']', '(', 'x', ')'], Option.some.inj evaluated, Escape.shielded_nil⟩

end Render

end Downmark
