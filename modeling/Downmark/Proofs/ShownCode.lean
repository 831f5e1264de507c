import Downmark.Proofs.CodeMarks
import Downmark.Proofs.Totality
/-!
What a reader sees in a code span. Main statement: the span of a code element reads back as the Markdown of its
children. That is the text of the element where no rule claims anything in it, and something else where an element in it
is written with marks.
-/

set_option autoImplicit false

namespace Downmark

open Node Whitespace

namespace Text

theorem drop_same (p q : Char → Bool) (s : Chars) (same : ∀ c ∈ s, p c = q c) : s.dropWhile p = s.dropWhile q := by
  induction s with
  | nil => rfl
  | cons c s ih =>
      rw [List.forall_mem_cons] at same
      rw [List.dropWhile_cons, List.dropWhile_cons, same.1, ih same.2]

end Text

namespace Code

/-- What the span of a code element is to show: the texts in the element, with spaces for line endings, and in flowing
text no spaces at the ends. -/
def shownText (o : Options) (ks : List Marked) : Chars :=
  let text := flattenLines (ownTexts o (forest ks))
  if o.preformattedCode then text else Text.trim (· == ' ') text

theorem free_ends (s : Chars) (free : '\n' ∉ s) :
    Text.ending Text.isNewline s = [] ∧ s.takeWhile Text.isNewline = [] := by
  have other (c : Char) (member : c ∈ s) : Text.isNewline c = false := by
    rw [Bool.eq_false_iff]
    intro newline
    obtain rfl : c = '\n' := by simpa [Text.isNewline] using newline
    exact free member
  refine ⟨(Text.ending_empty _ _).mpr ?_, (Text.take_empty _ _).mpr ?_⟩
  · cases last : s.getLast? with
    | none => rfl
    | some c => exact other c (List.mem_of_getLast? last)
  · cases first : s.head? with
    | none => rfl
    | some c => exact other c (List.mem_of_head? first)

theorem meets_seam (o : Options) (a b : Chars) (meets : Meets o a b)
    (free : o.preformattedCode = false → '\n' ∉ a ∧ '\n' ∉ b) : Seam o a b := by
  unfold Meets at meets
  split at meets
  · rename_i kept
    exact ⟨meets, fun flowing => absurd (kept.symm.trans flowing) Bool.noConfusion⟩
  · rename_i flowing
    obtain ⟨left, right⟩ := free (by simpa using flowing)
    refine ⟨?_, fun _ => meets⟩
    rw [KeepsNewlines, (free_ends a left).1, (free_ends b right).2]
    simp

theorem own_texts_spaced (o : Options) (flowing : o.preformattedCode = false) (ks : List Marked) (noted : Noted ks) :
    Spaced (ownTexts o (forest ks)) := by
  intro c member
  obtain ⟨n, listed, inside⟩ := List.mem_flatMap.mp member
  cases n with
  | text m data =>
      have same : ownText o (.text m data) = shown m data := by rw [ownText, flowing]; rfl
      rw [same] at inside
      exact (noted m data listed).spaced c inside
  | comment | element | document => cases inside

-- In flowing text there are no newlines left that could meet.
theorem cuts_seams (o : Options) (ks : List Marked) (noted : Noted ks) (cuts : AtCuts o (Meets o) [] (forest ks)) :
    AtCuts o (Seam o) [] (forest ks) := by
  intro before n after whole
  refine meets_seam o _ _ (cuts before n after whole) fun flowing => ?_
  have free := Render.spaced_newline _ (own_texts_spaced o flowing ks noted)
  rw [whole, texts_append, List.mem_append, not_or] at free
  exact free

theorem trim_spaced (s : Chars) (spaced : Spaced s) : Text.trim Text.isGap s = Text.trim (· == ' ') s := by
  have same (c : Char) (member : c ∈ s) : Text.isGap c = (c == ' ') := by
    cases gap : Text.isGap c with
    | true =>
        obtain rfl := spaced c member (gap_collapsible c gap)
        rfl
    | false =>
        simp only [Text.isGap, Bool.or_eq_false_iff] at gap
        exact gap.1.symm
  have first : Text.trimStart Text.isGap s = Text.trimStart (· == ' ') s := Text.drop_same _ _ s same
  have inside (c : Char) (member : c ∈ Text.trimStart (· == ' ') s) : c ∈ s := (List.dropWhile_sublist _).subset member
  rw [Text.trim, Text.trim, first, Text.trimEnd, Text.trimEnd,
    Text.drop_same _ _ _ fun c member => same c (inside c (List.mem_reverse.mp member))]

end Code

namespace Render

open Code Text

def codeRule : Rule := { name := "code", filter := .holds fun site _ => Inline.isCode site, replacement := Inline.code }

section

variable (o : Options)

theorem code_claimed (n : Marked) (path : List Step)
    (found : ({} : RuleTable).find ⟨n, path⟩ o n.mark.blank = .ok codeRule) :
    ∃ m a ks, n = .element m "code" a ks ∧ m.blank = false := by
  rcases RuleTable.find_cases {} _ o _ codeRule found with ⟨-, same⟩ | ⟨solid, -, claims⟩ | ⟨-, same, -⟩
  · exact absurd (congrArg Rule.name same) (by decide)
  · have code := ((Bool.and_eq_true _ _).mp (Except.ok.inj claims)).1
    cases n with
    | element m t a ks =>
        obtain rfl : t = "code" := beq_iff_eq.mp code
        exact ⟨m, a, ks, rfl, solid⟩
    | text | comment | document => cases code
  · exact absurd (congrArg Rule.name same) (by decide)

theorem code_replaced (m : Mark) (a : Attrs) (ks : List Marked) (path : List Step) (content preceding : Chars)
    (s : State) : ∃ leading trailing, Gaps leading ∧ Gaps trailing ∧
      replace codeRule ⟨.element m "code" a ks, path⟩ o content preceding s =
        .ok (leading ++ span (if o.preformattedCode then content else (flanking content).2.1) ++ trailing) s := by
  have level : Node.isBlock (.element m "code" a ks) = false := rfl
  have code : Site.isCode ⟨.element m "code" a ks, path⟩ = true := rfl
  unfold replace
  rw [level, code, Bool.and_true, Bool.false_or]
  cases mode : o.preformattedCode with
  | true => exact ⟨[], [], rfl, rfl, congrArg (EStateM.Result.ok · s) (List.append_nil _).symm⟩
  | false =>
      obtain ⟨before, after⟩ := flanking_gaps content
      refine ⟨_, _, ?_, ?_, rfl⟩
      · rw [gaps_iff]
        split
        · simp
        · exact before
      · rw [gaps_iff]
        split
        · simp
        · exact after

theorem quiet_shown (kept : Bool) (ks : List Marked) (noted : Noted ks) (mode : o.preformattedCode = kept) :
    flattenLines (if kept then ownTexts o (forest ks) else (flanking (ownTexts o (forest ks))).2.1) =
      shownText o ks := by
  unfold shownText
  dsimp only
  rw [mode]
  cases kept with
  | true => rfl
  | false =>
      have spaced := own_texts_spaced o mode ks noted
      have plain (s : Chars) (part : ∀ c ∈ s, c ∈ ownTexts o (forest ks)) : flattenLines s = s := by
        refine flatten_free s fun c member => ?_
        have same := spaced c (part c member)
        constructor
        · rintro rfl
          exact absurd (same rfl) (by decide)
        · rintro rfl
          exact absurd (same rfl) (by decide)
      have core : (flanking (ownTexts o (forest ks))).2.1 = Text.trim Text.isGap (ownTexts o (forest ks)) := rfl
      rw [if_neg Bool.false_ne_true, if_neg Bool.false_ne_true, core, plain _ fun c member => ?_,
        plain _ fun c member => member, trim_spaced _ spaced]
      rw [← flanking_whole (ownTexts o (forest ks))]
      exact List.mem_append_left _ (List.mem_append_right _ member)

theorem code_weight (content : Chars) :
    weight (flattenLines (if o.preformattedCode then content else (flanking content).2.1)) = weight content := by
  rw [weight_flat]
  split
  · rfl
  · exact weight_core content

theorem shown_weight (ks : List Marked) : weight (shownText o ks) = weight (ownTexts o (forest ks)) := by
  unfold shownText
  dsimp only
  split
  · exact weight_flat _
  · rw [weight_trim _ fun c space => by rw [beq_iff_eq.mp space]; rfl, weight_flat]

-- What is rendered of the children stands in the span, without the gaps at its ends in flowing text.
theorem code_rendered (m : Mark) (a : Attrs) (ks : List Marked) (path : List Step)
    (found : ({} : RuleTable).find ⟨.element m "code" a ks, path⟩ o m.blank = .ok codeRule)
    (finite : ∀ below ∈ visits {} o path (.element m "code" a ks), needsEndlessMarker below = false)
    (outer : List Open) (isBlock : Bool) (output : Chars) (s : State) :
    ∃ content middle leading trailing u,
      nodes {} o (⟨output, isBlock⟩ :: outer) false (.element m "code" a) path [] [] ks
        { s with codeDepth := s.codeDepth + 1 } = .ok content middle ∧
      node {} o outer isBlock path output (.element m "code" a ks) s = .ok (join output (leading ++
        span (if o.preformattedCode then content else (flanking content).2.1) ++ trailing)) u ∧
      Gaps leading ∧ Gaps trailing := by
  obtain ⟨text, u, written, -⟩ := (node_decided {} Gfm.default_reliable.rules o outer isBlock path output _).succeeds
    (by simpa using finite) s
  have worked := written
  rw [node_element] at worked
  obtain ⟨inner, v, made, ended⟩ := (bind_ok_iff _ _ _ _ _).mp worked
  cases ended
  obtain ⟨rule, content, middle, last, claimed, read, replaced, -⟩ :=
    element_steps {} o outer isBlock path output m "code" a ks inner s u made
  obtain rfl := Except.ok.inj (found.symm.trans claimed)
  obtain ⟨leading, trailing, first, final, whole⟩ := code_replaced o m a ks path content output middle
  obtain ⟨rfl, -⟩ := EStateM.Result.ok.inj (whole.symm.trans replaced)
  exact ⟨content, middle, leading, trailing, u, read, written, first, final⟩

theorem code_visits (m : Mark) (a : Attrs) (ks : List Marked) (path : List Step)
    (found : ({} : RuleTable).find ⟨.element m "code" a ks, path⟩ o m.blank = .ok codeRule) :
    (visits {} o path (.element m "code" a ks)).tail = visitsAll {} o (.element m "code" a) path [] ks := by
  rw [visits, asks_found {} o m "code" a ks path codeRule found]
  rfl

end

theorem code_spans_show (o : Options) (tree : Tree) (site : Site) (member : site ∈ visited {} o (Site.ofTree tree))
    (found : ({} : RuleTable).find site o site.node.mark.blank = .ok codeRule)
    (finite : ∀ below ∈ visits {} o site.path site.node, needsEndlessMarker below = false)
    (outer : List Open) (isBlock : Bool) (output : Chars) (s : State) (nested : 0 ≤ s.codeDepth) :
    ∃ leading code trailing read u, node {} o outer isBlock site.path output site.node s =
        .ok (join output (leading ++ span code ++ trailing)) u ∧ Gaps leading ∧ Gaps trailing ∧
      (code ≠ [] → ∀ rest, rest.head? ≠ some '`' → readSpan (span code ++ rest) = some (read, rest)) ∧
      ((∀ below ∈ forest site.node.kids, IsQuiet o below) →
        AtCuts o (Meets o) [] (forest site.node.kids) → read = shownText o site.node.kids) ∧
      ((∀ below ∈ forest site.node.kids, hides below = true → below.kids = []) →
        (∃ below ∈ (visits {} o site.path site.node).tail, isMarkedUp o below = true) →
        code ≠ [] ∧ read ≠ shownText o site.node.kids) := by
  have laid := visited_laid {} o tree site member
  have noted := noted_below _ _ (prepare_noted o _ (noted_below _ _ (fresh_noted tree {} rfl)
    (root_inside (Site.ofTree tree)))) (visited_below {} o tree site member)
  obtain ⟨n, path⟩ := site
  obtain ⟨m, a, ks, rfl, -⟩ := code_claimed o n path found
  dsimp only [Node.kids] at noted laid finite ⊢
  rw [noted_element] at noted
  obtain ⟨content, middle, leading, trailing, u, rendered, written, first, last⟩ :=
    code_rendered o m a ks path found finite outer isBlock output s
  have inside : ({ s with codeDepth := s.codeDepth + 1 } : State).inCode = true :=
    decide_eq_true (show (0 : Int) < s.codeDepth + 1 by omega)
  refine ⟨leading, _, trailing, _, u, written, first, last, fun some rest next => read_span _ rest some next, ?_, ?_⟩
  · intro quiet cuts
    have texts := nodes_quiet o _ inside (⟨output, isBlock⟩ :: outer) false (.element m "code" a) path [] [] ks [] quiet
      (fun below member => laid.sound.adopted below (List.mem_cons_of_mem _ member)) (.inl rfl)
      (by simpa using cuts_seams o ks noted cuts)
    obtain ⟨rfl, -⟩ := EStateM.Result.ok.inj (rendered.symm.trans texts)
    exact quiet_shown o _ ks noted rfl
  · rintro shows ⟨below, listed, marked⟩
    rw [code_visits o m a ks path found] at listed
    have enough := nodes_weigh o (⟨output, isBlock⟩ :: outer) false (.element m "code" a) path [] [] ks shows
      laid.sound.flagged.2 noted _ middle inside content rendered
    have more : 0 < (visitsAll {} o (.element m "code" a) path [] ks).countP (isMarkedUp o) :=
      List.countP_pos_iff.mpr ⟨below, listed, marked⟩
    have same := code_weight o content
    have less := shown_weight o ks
    unfold load at enough
    refine ⟨fun none => ?_, fun shown => ?_⟩
    · rw [none, show weight (flattenLines []) = 0 from rfl] at same
      omega
    · rw [shown] at same
      omega

def spannedCode : Tree :=
  .element () "code" [] [.text () "a ".toList, .element () "span" [] [.text () "*b*".toList]]

theorem spanned_code_shown : ∃ site ∈ visited {} {} (Site.ofTree spannedCode),
    ({} : RuleTable).find site {} site.node.mark.blank = .ok codeRule ∧
    (∀ below ∈ visits {} {} site.path site.node, needsEndlessMarker below = false) ∧ (0 : Int) ≤ ({} : State).codeDepth ∧
    ∃ leading code trailing u, node {} {} [] true site.path [] site.node {} =
        .ok (join [] (leading ++ span code ++ trailing)) u ∧
      (code ≠ [] → readSpan (span code) = some ("a *b*".toList, [])) := by
  let site : Site := ⟨prepare {} (unmark spannedCode), []⟩
  have member : site ∈ visited {} {} (Site.ofTree spannedCode) := first_visited {} {} _ _ _ _
  have found : ({} : RuleTable).find site {} site.node.mark.blank = .ok codeRule := rfl
  have finite : ∀ below ∈ visits {} {} site.path site.node, needsEndlessMarker below = false := by decide +kernel
  obtain ⟨leading, code, trailing, read, u, written, -, -, reads, quiet, -⟩ :=
    code_spans_show {} spannedCode site member found finite [] true [] {} (Int.le_refl 0)
  have shown : read = shownText {} site.node.kids := quiet (by decide +kernel) (by decide +kernel)
  have same : shownText {} site.node.kids = "a *b*".toList := by decide +kernel
  refine ⟨site, member, found, finite, Int.le_refl 0, leading, code, trailing, u, written, fun some => ?_⟩
  have whole := reads some [] nofun
  rwa [List.append_nil, shown, same] at whole

def emphasizedCode : Tree :=
  .element () "code" [] [.text () ['a'], .element () "em" [] [.text () ['b']]]

-- The delimiters of the emphasis are read as code.
theorem emphasis_shown_in_code : ¬ ∀ (o : Options) (tree : Tree) (site : Site),
    site ∈ visited {} o (Site.ofTree tree) → ({} : RuleTable).find site o site.node.mark.blank = .ok codeRule →
    ∀ s code u, node {} o [] true site.path [] site.node s = .ok (span code) u → code ≠ [] →
      readSpan (span code) = some (shownText o site.node.kids, []) := by
  intro always
  let site : Site := ⟨prepare {} (unmark emphasizedCode), []⟩
  have same : span "a_b_".toList = "`a_b_`".toList := by decide +kernel
  have written : node {} {} [] true [] [] site.node {} = .ok (span "a_b_".toList) {} := by
    rw [same]
    rfl
  have read := always {} emphasizedCode site (first_visited {} {} _ _ _ _) rfl {} _ {} written (by decide)
  have shown : shownText {} site.node.kids = "ab".toList := by decide +kernel
  have found : readSpan (span "a_b_".toList) = some ("a_b_".toList, []) := by decide +kernel
  rw [found, shown] at read
  exact absurd read (by decide)

end Render

end Downmark
