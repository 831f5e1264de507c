import Downmark.Proofs.Carried
import Downmark.Proofs.CodeSpans
import Downmark.Proofs.CodeTexts
import Downmark.Proofs.NumberedRules
import Downmark.Proofs.SolidEnds
/-!
How much is written of the elements in code. No rule drops a visible character of its content, and those for links,
images, emphasis and code add some. Main statement: the output of the children of a code element has at least as many
visible characters as their texts, and one more for each element that is written with marks.
-/

set_option autoImplicit false

namespace Downmark

open Node Whitespace

namespace Text

/-- How many characters of a text are no white space. -/
def weight (s : Chars) : Nat := s.countP fun c => !isBlank c

theorem weight_append (s t : Chars) : weight (s ++ t) = weight s + weight t := List.countP_append

theorem weight_cons (c : Char) (s : Chars) : weight (c :: s) = weight s + if isBlank c then 0 else 1 := by
  rw [weight, List.countP_cons, weight]
  cases isBlank c <;> rfl

theorem weight_blank (s : Chars) (blank : ∀ c ∈ s, isBlank c = true) : weight s = 0 :=
  List.countP_eq_zero.mpr fun c member => by simp [blank c member]

theorem weight_seen (s : Chars) (seen : s.any (fun c => !isBlank c) = true) : 0 < weight s :=
  List.countP_pos_iff.mpr (List.any_eq_true.mp seen)

theorem weight_trim (p : Char → Bool) (blank : ∀ c, p c = true → isBlank c = true) (s : Chars) :
    weight (trim p s) = weight s := by
  obtain ⟨front, whole, first⟩ := trim_start_run p s
  obtain ⟨back, rest, last⟩ := trim_end_run p (trimStart p s)
  rw [trim]
  generalize trimStart p s = t at whole rest last ⊢
  generalize trimEnd p t = u at rest ⊢
  subst rest whole
  rw [weight_append, weight_append, weight_blank front fun c member => blank c (first c member),
    weight_blank back fun c member => blank c (last c member)]
  omega

theorem weight_join (a b : Chars) : weight (join a b) = weight a + weight b := by
  obtain ⟨i, j, k, left, right, joined, -, -⟩ := join_runs a b
  have none (n : Nat) : weight (List.replicate n '\n') = 0 := weight_blank _ fun c member => by
    rw [List.eq_of_mem_replicate member]
    rfl
  have before := congrArg weight left
  have after := congrArg weight right
  rw [weight_append, none] at before after
  rw [joined, weight_append, weight_append, none]
  omega

theorem weight_flat (s : Chars) : weight (Code.flattenLines s) = weight s := by
  fun_induction Code.flattenLines s with
  | case1 s ih =>
      rw [weight_cons, weight_cons, weight_cons, ih]
      rfl
  | case2 c s _ ih =>
      rw [weight_cons, weight_cons, ih]
      by_cases ending : (c == '\n' || c == '\r') = true
      · have blank : isBlank c = true := by
          simp only [Bool.or_eq_true, beq_iff_eq] at ending
          rcases ending with rfl | rfl <;> rfl
        rw [if_pos ending, blank]
        rfl
      · rw [if_neg ending]
  | case3 => rfl

-- The visible characters of a text, each a piece of its own.
def solids (s : Chars) : List Chars := (s.filter fun c => !isBlank c).map fun c => [c]

theorem solids_compact (s : Chars) : ∀ piece ∈ solids s, Compact piece := by
  intro piece member
  obtain ⟨c, listed, rfl⟩ := List.mem_map.mp member
  exact ⟨List.cons_ne_nil c [], fun d inside => by
    rw [List.mem_singleton.mp inside]
    simpa using (List.mem_filter.mp listed).2⟩

theorem solids_length (s : Chars) : (solids s).length = weight s := by
  rw [solids, List.length_map, weight, List.countP_eq_length_filter]

theorem carries_solids (s : Chars) : Carries (solids s) s := by
  induction s with
  | nil => trivial
  | cons c s ih =>
      cases blank : isBlank c with
      | true =>
          have same : solids (c :: s) = solids s := by simp [solids, blank]
          rw [same]
          exact carries_before _ [c] s ih
      | false =>
          have same : solids (c :: s) = [c] :: solids s := by simp [solids, blank]
          rw [same]
          exact ⟨[], s, rfl, ih⟩

theorem carries_weight (pieces : List Chars) (compact : ∀ piece ∈ pieces, Compact piece) (s : Chars)
    (carries : Carries pieces s) : pieces.length ≤ weight s := by
  induction pieces generalizing s with
  | nil => exact Nat.zero_le _
  | cons piece rest ih =>
      rw [List.forall_mem_cons] at compact
      obtain ⟨before, after, rfl, later⟩ := carries
      obtain ⟨c, more, rfl⟩ := List.exists_cons_of_ne_nil compact.1.some
      have some : weight (c :: more) = weight more + 1 := by
        rw [weight_cons, compact.1.solid c List.mem_cons_self, if_neg Bool.false_ne_true]
      have bound := ih compact.2 after later
      rw [weight_append, weight_append, some, List.length_cons]
      omega

-- What carries along all compact pieces of a text loses nothing of its weight.
theorem weight_carried (s t : Chars)
    (keeps : ∀ pieces, (∀ piece ∈ pieces, Compact piece) → Carries pieces s → Carries pieces t) :
    weight s ≤ weight t := by
  rw [← solids_length s]
  exact carries_weight _ (solids_compact s) t (keeps _ (solids_compact s) (carries_solids s))

theorem weight_core (s : Chars) : weight (flanking s).2.1 = weight s := weight_trim isGap gap_is_blank s

end Text

namespace Code

/-- A node whose children leave nothing in the output: a code block, which is read off the tree, or what is dropped
with its content. -/
def hides : Marked → Bool
  | .document _ _ => true
  | .element m t a ks => isBlock (.element m t a ks) || (["br", "hr", "img"] ++ removedTags).contains t
  | _ => false

/-- Whether a rule writes marks for an element: link and image syntax, or delimiters around something visible. -/
def marksUp (o : Options) (site : Site) (rule : Rule) : Bool :=
  ["inline-link", "reference-link"].contains rule.name
    || (rule.name == "image" && !(site.node.attr "src").isEmpty)
    || (["emphasis", "strong", "code"].contains rule.name
      && (ownTexts o (forest site.node.kids)).any fun c => !Text.isBlank c)

/-- Whether an element is written with marks. -/
def isMarkedUp (o : Options) (site : Site) : Bool :=
  match ({} : RuleTable).find site o site.node.mark.blank with
  | .ok rule => marksUp o site rule
  | .error _ => false

end Code

namespace Render

open Code Text

section

variable (o : Options) (m : Mark) (t : String) (a : Attrs) (ks : List Marked) (path : List Step) (k : Nat)

-- A rule adds its marks to whatever visible characters the content of an element has.
def Gains (rule : Rule) : Prop := ∀ content written s u, k ≤ weight content →
  rule.replacement content ⟨.element m t a ks, path⟩ o s = .ok written u →
  k + (marksUp o ⟨.element m t a ks, path⟩ rule).toNat ≤ weight written

theorem unmarked_gains (rule : Rule) (f : Chars → Site → Options → State → Chars)
    (unmarked : marksUp o ⟨.element m t a ks, path⟩ rule = false) (writes : rule.replacement = .ofFunction f)
    (keeps : ∀ content s, weight content ≤ weight (f content ⟨.element m t a ks, path⟩ o s)) :
    Gains o m t a ks path k rule := by
  intro content written s u enough worked
  rw [writes] at worked
  obtain rfl := of_function_ok f content _ o s u written worked
  rw [unmarked]
  exact enough.trans (keeps content s)

theorem hidden_gains (rule : Rule) (unmarked : marksUp o ⟨.element m t a ks, path⟩ rule = false) (none : k = 0) :
    Gains o m t a ks path k rule := by
  intro content written s u _ _
  rw [unmarked, none]
  exact Nat.zero_le _

theorem link_gains (content rest : Chars) : weight content + 1 ≤ weight ('[' :: content ++ ']' :: rest) := by
  have opening : isBlank '[' = false := rfl
  rw [List.cons_append, weight_cons, weight_append, opening, if_neg Bool.false_ne_true]
  omega

theorem delimited_gains (text content preferred alternate : Chars) (first : 0 < weight preferred)
    (other : 0 < weight alternate) (seen : 0 < weight content) :
    weight content + 1 ≤ weight (Inline.delimited text content preferred alternate) := by
  have visible : isBlankText content = false := by
    rw [Bool.eq_false_iff]
    intro blank
    rw [weight_blank content (List.all_eq_true.mp blank)] at seen
    cases seen
  have chosen : 0 < weight (Inline.chooseDelimiter text content preferred alternate) := by
    unfold Inline.chooseDelimiter
    split
    · exact first
    · split
      · exact other
      · exact first
  rw [Inline.delimited, visible, if_neg Bool.false_ne_true, weight_append, weight_append]
  omega

theorem span_gains (content : Chars) (seen : 0 < weight content) : weight content + 1 ≤ weight (span content) := by
  have some : content.isEmpty = false := by
    cases content with
    | nil => cases seen
    | cons c content => rfl
  obtain ⟨n, longer⟩ := Nat.exists_eq_succ_of_ne_zero (span_fresh (flattenLines content)).1
  have flat := weight_flat content
  have tick : isBlank '`' = false := rfl
  rw [span, some, if_neg Bool.false_ne_true]
  dsimp only
  rw [longer, List.replicate_succ]
  simp only [List.append_assoc, List.cons_append, weight_append, weight_cons, tick, if_neg Bool.false_ne_true]
  omega

theorem apart_keeps (s : Chars) : weight (Block.apart s) = weight s := by
  have newlines : weight ['\n', '\n'] = 0 := weight_blank _ fun c member => by
    obtain rfl : c = '\n' := by simpa using member
    rfl
  change weight (['\n', '\n'] ++ s ++ ['\n', '\n']) = weight s
  rw [weight_append, weight_append, newlines, Nat.zero_add, Nat.add_zero]

-- Delimiters are put around what is visible of the content, and around nothing else.
theorem wrapped_gains (rule : Rule) (f : Chars → Site → Options → State → Chars)
    (named : rule.name ∈ ["emphasis", "strong", "code"]) (writes : rule.replacement = .ofFunction f)
    (visible : weight (ownTexts o (forest ks)) ≤ k)
    (keeps : ∀ content s, weight content ≤ weight (f content ⟨.element m t a ks, path⟩ o s))
    (gains : ∀ content s, 0 < weight content →
      weight content + 1 ≤ weight (f content ⟨.element m t a ks, path⟩ o s)) : Gains o m t a ks path k rule := by
  intro content written s u enough worked
  rw [writes] at worked
  obtain rfl := of_function_ok f content _ o s u written worked
  cases mark : marksUp o ⟨.element m t a ks, path⟩ rule with
  | false => exact enough.trans (keeps content s)
  | true =>
      have seen : (ownTexts o (forest ks)).any (fun c => !isBlank c) = true := by
        simp only [List.mem_cons, List.not_mem_nil, or_false] at named
        rcases named with name | name | name <;> simpa [marksUp, name, Node.kids] using mark
      have some := weight_seen _ seen
      have more := gains content s (by omega)
      rw [Bool.toNat_true]
      omega

theorem em_weighs (d : EmDelimiter) : 0 < weight d.text := by cases d <;> decide

theorem strong_weighs (d : StrongDelimiter) : 0 < weight d.text := by cases d <;> decide

theorem image_gains (rule : Rule) (named : rule.name = "image") (writes : rule.replacement = Link.image)
    (none : k = 0) : Gains o m t a ks path k rule := by
  intro content written s u _ worked
  rw [writes] at worked
  unfold Link.image at worked
  have mark : marksUp o ⟨.element m t a ks, path⟩ rule = !(attr "src" (.element m t a ks)).isEmpty := by
    simp [marksUp, named]
  rw [mark, none]
  cases source : (attr "src" (.element m t a ks)).isEmpty with
  | true => exact Nat.zero_le _
  | false =>
      simp only [source, Bool.false_eq_true, if_false] at worked
      have begun : ∃ rest, written = '!' :: rest := by
        split at worked
        · obtain ⟨rest, v, -, ended⟩ := (bind_ok_iff _ _ _ _ _).mp worked
          cases ended
          exact ⟨_, rfl⟩
        · cases worked
          exact ⟨_, rfl⟩
      obtain ⟨rest, rfl⟩ := begun
      rw [weight_cons]
      exact Nat.le_add_left _ _

theorem listed_gains (visible : weight (ownTexts o (forest ks)) ≤ k)
    (hidden : hides (.element m t a ks) = true → k = 0) : ∀ rule ∈ CommonMark.rules,
      rule.claims ⟨.element m t a ks, path⟩ o = .ok true → Gains o m t a ks path k rule := by
  have dropped (name : String) (listed : name ∈ ["br", "hr", "img"]) (same : t = name) : k = 0 := by
    refine hidden ?_
    rw [hides, Bool.or_eq_true]
    exact .inr (List.contains_iff_mem.mpr (List.mem_append_left _ (same ▸ listed)))
  have coded (style : CodeBlockStyle)
      (claims : (o.codeBlockStyle = style && Code.isBlock (.element m t a ks)) = true) : k = 0 := by
    refine hidden ?_
    rw [hides, ((Bool.and_eq_true _ _).mp claims).2, Bool.true_or]
  simp only [CommonMark.rules, List.forall_mem_cons]
  refine ⟨?paragraph, ?lineBreak, ?heading, ?quote, ?list, ?item, ?indented, ?fenced, ?preformatted, ?thematic, ?inline,
    ?reference, ?emphasis, ?strong, ?code, ?image, by simp⟩
  case paragraph =>
    exact fun _ => unmarked_gains o m t a ks path k _ _ rfl rfl fun content _ => (apart_keeps content).ge
  case lineBreak =>
    intro claims
    exact hidden_gains o m t a ks path k _ rfl
      (dropped "br" (by decide) (List.mem_singleton.mp (claimed_named o m t a ks path _ ["br"] rfl claims)))
  case heading =>
    refine fun _ => unmarked_gains o m t a ks path k _ _ rfl rfl fun content _ => ?_
    rw [apart_keeps]
    exact weight_carried _ _ fun pieces compact => carries_heading pieces compact _ _ content
  case quote =>
    refine fun _ => unmarked_gains o m t a ks path k _ _ rfl rfl fun content _ => ?_
    rw [apart_keeps]
    exact weight_carried _ _ fun pieces compact => carries_quote pieces compact content
  case list =>
    refine fun _ => unmarked_gains o m t a ks path k _ _ rfl rfl fun content _ => ?_
    have under : weight content ≤ weight ('\n' :: content) := Nat.le_of_eq (weight_cons '\n' content).symm
    split
    · split
      · exact under
      · exact (apart_keeps content).ge
    · exact (apart_keeps content).ge
  case item =>
    refine fun _ => unmarked_gains o m t a ks path k _ _ rfl rfl fun content _ => ?_
    have item := weight_carried content (Block.itemText (Block.markerOf o ⟨.element m t a ks, path⟩) content)
      fun pieces compact => carries_item pieces compact _ content
    dsimp only
    split
    · rw [weight_append]
      omega
    · exact item
  case indented => exact fun claims => hidden_gains o m t a ks path k _ rfl (coded _ (Except.ok.inj claims))
  case fenced => exact fun claims => hidden_gains o m t a ks path k _ rfl (coded _ (Except.ok.inj claims))
  case preformatted =>
    refine fun _ => unmarked_gains o m t a ks path k _ _ rfl rfl fun content _ => ?_
    rw [apart_keeps, weight_trim isNewline newline_is_blank]
  case thematic =>
    intro claims
    exact hidden_gains o m t a ks path k _ rfl
      (dropped "hr" (by decide) (List.mem_singleton.mp (claimed_named o m t a ks path _ ["hr"] rfl claims)))
  case inline =>
    intro _ content written s u enough worked
    change Link.inlineLink content _ o s = .ok written u at worked
    obtain rfl := of_function_ok _ content _ o s u written worked
    exact (Nat.add_le_add enough (Bool.toNat_le _)).trans (link_gains content _)
  case reference =>
    intro _ content written s u enough worked
    obtain ⟨suffix, v, -, ended⟩ := (bind_ok_iff _ _ _ _ _).mp worked
    cases ended
    exact (Nat.add_le_add enough (Bool.toNat_le _)).trans (link_gains content suffix)
  case emphasis =>
    exact fun _ => wrapped_gains o m t a ks path k _ _ (by decide) rfl visible
      (fun content _ => weight_carried _ _ fun pieces compact => carries_delimited pieces compact _ content _ _)
      fun content _ => delimited_gains _ content _ _ (em_weighs _) (em_weighs _)
  case strong =>
    exact fun _ => wrapped_gains o m t a ks path k _ _ (by decide) rfl visible
      (fun content _ => weight_carried _ _ fun pieces compact => carries_delimited pieces compact _ content _ _)
      fun content _ => delimited_gains _ content _ _ (strong_weighs _) (strong_weighs _)
  case code =>
    exact fun _ => wrapped_gains o m t a ks path k _ _ (by decide) rfl visible
      (fun content _ => weight_carried _ _ fun pieces compact => carries_span pieces compact content)
      fun content _ => span_gains content
  case image =>
    intro claims
    exact image_gains o m t a ks path k _ rfl rfl
      (dropped "img" (by decide) (List.mem_singleton.mp (claimed_named o m t a ks path _ ["img"] rfl claims)))

theorem rule_gains (visible : weight (ownTexts o (forest ks)) ≤ k)
    (hidden : m.blank = true ∨ hides (.element m t a ks) = true → k = 0) (rule : Rule)
    (found : ({} : RuleTable).find ⟨.element m t a ks, path⟩ o m.blank = .ok rule) : Gains o m t a ks path k rule := by
  rcases RuleTable.find_cases {} _ o m.blank rule found with ⟨blank, rfl⟩ | ⟨-, listed, claims⟩ | ⟨-, rfl, -⟩
  · exact hidden_gains o m t a ks path k _ rfl (hidden (.inl blank))
  · rcases List.mem_append.mp listed with builtin | removed
    · exact listed_gains o m t a ks path k visible (fun hides => hidden (.inr hides)) rule (by simpa using builtin) claims
    · obtain ⟨tag, inside, rfl⟩ := List.mem_map.mp removed
      have named : t = tag := List.mem_singleton.mp (claimed_named o m t a ks path _ [tag] rfl claims)
      refine hidden_gains o m t a ks path k _ ?_ (hidden (.inr ?_))
      · have names : ∀ tag ∈ removedTags, ("remove-" ++ tag) ∉ ["inline-link", "reference-link", "image", "emphasis",
            "strong", "code"] := by decide
        have other := names tag inside
        simp only [List.mem_cons, List.not_mem_nil, or_false, not_or] at other
        simp [marksUp, other]
      · rw [hides, Bool.or_eq_true]
        exact .inr (List.contains_iff_mem.mpr (List.mem_append_right _ (named ▸ inside)))
  · refine unmarked_gains o m t a ks path k _ _ rfl rfl fun content _ => ?_
    dsimp only
    split
    · exact (apart_keeps content).ge
    · exact Nat.le_refl _

-- The rules that do not ask for the children are those for code blocks, and those that drop an element.
theorem unrendered_hides (rule : Rule) (found : ({} : RuleTable).find ⟨.element m t a ks, path⟩ o m.blank = .ok rule)
    (still : rule.rendersChildren = false) : hides (.element m t a ks) = true := by
  rw [hides, Bool.or_eq_true]
  rcases RuleTable.find_cases {} _ o m.blank rule found with ⟨-, rfl⟩ | ⟨-, listed, claims⟩ | ⟨-, rfl, -⟩
  · cases still
  · rcases List.mem_append.mp listed with builtin | removed
    · exact .inl (unrendered_code ⟨.element m t a ks, path⟩ o rule (by simpa using builtin) still claims)
    · obtain ⟨tag, inside, rfl⟩ := List.mem_map.mp removed
      have named : t = tag := List.mem_singleton.mp (claimed_named o m t a ks path _ [tag] rfl claims)
      exact .inr (List.contains_iff_mem.mpr (List.mem_append_right _ (named ▸ inside)))
  · cases still

omit k in
theorem replace_asks (rule : Rule) (site : Site) (content preceding written : Chars) (s u : State)
    (worked : replace rule site o content preceding s = .ok written u) :
    ∃ core inner, weight core = weight content ∧ rule.replacement core site o s = .ok inner u ∧
      weight inner ≤ weight written := by
  have cases_ := replace_cases rule site o content preceding written s u worked
  split at cases_
  · exact ⟨content, written, rfl, cases_, Nat.le_refl _⟩
  · obtain ⟨inner, trailing, replaced, rfl, -⟩ := cases_
    refine ⟨_, inner, weight_core content, replaced, ?_⟩
    rw [weight_append, weight_append]
    omega

end

section

variable (o : Options)

theorem ink_weight (s : Chars) : weight (Glyph.ink s) = weight s := by
  rw [weight, Glyph.ink, List.countP_filter]
  refine List.countP_congr fun c _ => ?_
  cases blank : isBlank c with
  | true => simp
  | false =>
      have solid : isCollapsible c = false := by
        rw [Bool.eq_false_iff]
        intro collapses
        rw [collapsible_blank c collapses] at blank
        cases blank
      simp [solid]

theorem own_weight (m : Mark) (data : Chars) (regapped : Regapped (shown m data) data) :
    weight (ownText o (.text m data)) = weight data := by
  cases noted : m.shown with
  | some text =>
      have same : shown m data = text := by rw [shown, Whitespace.noted, noted]; rfl
      rw [ownText, noted, Option.getD_some, ← ink_weight, ← same, regapped.inked, ink_weight]
  | none =>
      rw [ownText, noted, Option.getD_none]
      split
      · rfl
      · rw [← ink_weight, (squeeze_regaps data).inked, ink_weight]

mutual

theorem text_weight (n : Marked) (noted : Noted [n]) :
    weight (ownTexts o (n :: descendants n)) = weight n.textContent := by
  cases n with
  | text m data =>
      rw [descendants, texts_cons]
      exact (congrArg weight (List.append_nil _)).trans (own_weight o m data ((noted_text m data).mp noted))
  | comment m data => rfl
  | element m t a ks =>
      rw [texts_element]
      exact texts_weight ks ((noted_element m t a ks).mp noted)
  | document m ks =>
      rw [descendants, texts_cons]
      exact texts_weight ks ((noted_document m ks).mp noted)

theorem texts_weight (ks : List Marked) (noted : Noted ks) :
    weight (ownTexts o (forest ks)) = weight (textContents ks) := by
  cases ks with
  | nil => rfl
  | cons n rest =>
      rw [noted_cons] at noted
      rw [forest, textContents, ← List.cons_append, texts_append, weight_append, weight_append,
        text_weight n noted.1, texts_weight rest noted.2]

end

mutual

-- Below an element that is blank, every element is.
theorem silent_unmarked (path : List Step) (n : Marked) (flagged : Flagged n) (silent : isSolid n = false) :
    (visits {} o path n).countP (isMarkedUp o) = 0 := by
  cases n with
  | text | comment | document => rfl
  | element m t a ks =>
      obtain ⟨blank, below⟩ := flagged
      rw [silent, Bool.not_false] at blank
      have self : isMarkedUp o ⟨.element m t a ks, path⟩ = false := by
        have found : ({} : RuleTable).find ⟨.element m t a ks, path⟩ o m.blank = .ok Rule.blank := by rw [blank]; rfl
        rw [isMarkedUp, show (⟨.element m t a ks, path⟩ : Site).node.mark.blank = m.blank from rfl, found]
        rfl
      rw [element_solid, Bool.or_eq_false_iff] at silent
      rw [visits, List.countP_cons_of_neg (by simp [self])]
      split
      · exact silent_all_unmarked (.element m t a) path [] ks below silent.2
      · rfl

theorem silent_all_unmarked (head : Head) (path : List Step) (before ks : List Marked) (flagged : FlaggedAll ks)
    (silent : ks.any isSolid = false) : (visitsAll {} o head path before ks).countP (isMarkedUp o) = 0 := by
  cases ks with
  | nil => rfl
  | cons n rest =>
      rw [List.any_cons, Bool.or_eq_false_iff] at silent
      rw [visitsAll, List.countP_append, silent_unmarked (Site.pathTo head path before rest n) n flagged.1 silent.1,
        silent_all_unmarked head path (n :: before) rest flagged.2 silent.2]

end

-- What the children of an element are to leave: their visible characters, and one for each element with marks.
def load (head : Head) (path : List Step) (before ks : List Marked) : Nat :=
  weight (ownTexts o (forest ks)) + (visitsAll {} o head path before ks).countP (isMarkedUp o)

theorem load_blank (m : Mark) (t : String) (a : Attrs) (ks : List Marked) (path : List Step)
    (flagged : Flagged (.element m t a ks)) (noted : Noted ks) (blank : m.blank = true) :
    load o (.element m t a) path [] ks = 0 := by
  have silent : isSolid (.element m t a ks) = false := by simpa [blank] using flagged.1.symm
  rw [element_solid, Bool.or_eq_false_iff] at silent
  have unseen : isBlankText (textContents ks) = true := by
    have parts := silent.2
    rw [any_solid, Bool.or_eq_false_iff] at parts
    simpa using parts.1
  rw [load, silent_all_unmarked o (.element m t a) path [] ks flagged.2 silent.2, texts_weight o ks noted,
    weight_blank _ (List.all_eq_true.mp unseen)]

theorem visits_marked (m : Mark) (t : String) (a : Attrs) (ks : List Marked) (path : List Step) (rule : Rule)
    (found : ({} : RuleTable).find ⟨.element m t a ks, path⟩ o m.blank = .ok rule) :
    (visits {} o path (.element m t a ks)).countP (isMarkedUp o) ≤
      (visitsAll {} o (.element m t a) path [] ks).countP (isMarkedUp o) +
        (marksUp o ⟨.element m t a ks, path⟩ rule).toNat := by
  have self : isMarkedUp o ⟨.element m t a ks, path⟩ = marksUp o ⟨.element m t a ks, path⟩ rule := by
    rw [isMarkedUp, show (⟨.element m t a ks, path⟩ : Site).node.mark.blank = m.blank from rfl, found]
  rw [visits, List.countP_cons, self]
  refine Nat.add_le_add ?_ ?_
  · split
    · exact Nat.le_refl _
    · exact Nat.zero_le _
  · cases marksUp o ⟨.element m t a ks, path⟩ rule <;> rfl

theorem element_weighs (outer : List Open) (isBlock : Bool) (path : List Step) (out : Chars) (m : Mark) (t : String)
    (a : Attrs) (ks : List Marked) (flagged : Flagged (.element m t a ks)) (noted : Noted ks)
    (shows : hides (.element m t a ks) = true → ks = []) (s u : State) (coded : s.inCode = true) (written : Chars)
    (worked : elementText {} o outer isBlock path out m t a ks s = .ok written u)
    (below : ∀ outer isBlock inner content middle, inner.inCode = true →
      nodes {} o outer isBlock (.element m t a) path [] [] ks inner = .ok content middle →
      load o (.element m t a) path [] ks ≤ weight content) :
    weight (ownTexts o (forest ks)) + (visits {} o path (.element m t a ks)).countP (isMarkedUp o) ≤ weight written := by
  obtain ⟨rule, content, middle, last, found, read, replaced, -⟩ :=
    element_steps {} o outer isBlock path out m t a ks written s u worked
  have none (hidden : hides (.element m t a ks) = true) : load o (.element m t a) path [] ks = 0 := by
    rw [shows hidden]
    rfl
  have enough : load o (.element m t a) path [] ks ≤ weight content := by
    unfold contentText at read
    split at read
    · exact below _ _ _ content middle (opened_coded o _ s coded) read
    · rename_i still
      rw [none (unrendered_hides o m t a ks path rule found (by simpa using still))]
      exact Nat.zero_le _
  obtain ⟨core, inner, whole, asked, less⟩ := replace_asks o rule _ content out written middle last replaced
  have gains := rule_gains o m t a ks path (load o (.element m t a) path [] ks) (Nat.le_add_right _ _)
    (fun hidden => hidden.elim (load_blank o m t a ks path flagged noted) none) rule found core inner middle last
    (by rwa [whole]) asked
  have marked := visits_marked o m t a ks path rule found
  unfold load at gains
  omega

end

-- Every node adds what it is to leave. All the while the rendering is in code, as the counters are kept.
mutual

theorem node_weighs (o : Options) (outer : List Open) (isBlock : Bool) (path : List Step) (out : Chars) (n : Marked)
    (shows : ∀ below ∈ n :: descendants n, hides below = true → below.kids = []) (flagged : Flagged n)
    (noted : Noted [n]) (s u : State) (coded : s.inCode = true) (written : Chars)
    (worked : node {} o outer isBlock path out n s = .ok written u) :
    weight out + weight (ownTexts o (n :: descendants n)) + (visits {} o path n).countP (isMarkedUp o) ≤
      weight written := by
  cases n with
  | text m data =>
      have own : ownTexts o (.text m data :: descendants (.text m data)) = ownText o (.text m data) := by
        simp [ownTexts, descendants]
      cases worked
      rw [code_text o s coded, weight_join, own]
      exact Nat.le_refl _
  | comment m data =>
      cases worked
      exact Nat.le_refl _
  | document m ks =>
      cases worked
      have empty : ks = [] := shows _ List.mem_cons_self rfl
      rw [empty]
      exact Nat.le_refl _
  | element m t a ks =>
      rw [node_element] at worked
      obtain ⟨text, v, made, ended⟩ := (bind_ok_iff _ _ _ _ _).mp worked
      cases ended
      rw [noted_element] at noted
      have more := element_weighs o outer isBlock path out m t a ks flagged noted
        (shows _ List.mem_cons_self) s u coded text made fun outer isBlock inner content middle inside rendered => by
          have enough := nodes_weigh o outer isBlock (.element m t a) path [] [] ks
            (fun below member => shows below (List.mem_cons_of_mem _ member)) flagged.2 noted inner middle inside content
            rendered
          simpa [weight] using enough
      rw [texts_element, weight_join]
      omega

theorem nodes_weigh (o : Options) (outer : List Open) (isBlock : Bool) (head : Head) (path : List Step)
    (before : List Marked) (out : Chars) (ks : List Marked)
    (shows : ∀ below ∈ forest ks, hides below = true → below.kids = []) (flagged : FlaggedAll ks) (noted : Noted ks)
    (s u : State) (coded : s.inCode = true) (written : Chars)
    (worked : nodes {} o outer isBlock head path before out ks s = .ok written u) :
    weight out + load o head path before ks ≤ weight written := by
  cases ks with
  | nil =>
      cases worked
      exact Nat.le_refl _
  | cons n rest =>
      have parts : forest (n :: rest) = n :: descendants n ++ forest rest := rfl
      rw [parts, List.forall_mem_append] at shows
      rw [noted_cons] at noted
      rw [nodes] at worked
      obtain ⟨middle, v, first, later⟩ := (bind_ok_iff _ _ _ _ _).mp worked
      have here := node_weighs o outer isBlock (Site.pathTo head path before rest n) out n shows.1 flagged.1
        noted.1 s v coded middle first
      have depth : v.codeDepth = s.codeDepth :=
        congrArg Counters.code (node_keeps {} default_table_keeps o outer isBlock _ out n s middle v first)
      have still : v.inCode = true := by rwa [State.inCode, depth]
      have there := nodes_weigh o outer isBlock head path (n :: before) middle rest shows.2 flagged.2 noted.2 v u
        still written later
      rw [load, parts, texts_append, weight_append, visitsAll, List.countP_append]
      unfold load at there
      omega

end

end Render

end Downmark
