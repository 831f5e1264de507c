import Downmark.Proofs.NotedTexts
import Downmark.Proofs.SplitText
import Downmark.Proofs.Stacked
import Downmark.Proofs.TableRows
/-!
Code elements with nothing to show but text. In code, texts are written as they are, and elements that no rule claims
leave no mark around them. Main statement: the children of such an element are rendered to its texts, one after the
other, wherever these can meet without white space being merged.
-/

set_option autoImplicit false

namespace Downmark

open Node Whitespace

namespace Code

/-- The text of a text node in code. Other nodes have no text of their own. -/
def ownText (o : Options) : Marked → Chars
  | .text m data => m.shown.getD (if o.preformattedCode then data else squeeze data)
  | _ => []

def ownTexts (o : Options) (ns : List Marked) : Chars := ns.flatMap (ownText o)

/-- Joining two texts merges no newlines: they are all on one side, and no more than two. -/
def KeepsNewlines (a b : Chars) : Prop :=
  ((Text.ending Text.isNewline a).length = 0 ∨ (b.takeWhile Text.isNewline).length = 0) ∧
    (Text.ending Text.isNewline a).length + (b.takeWhile Text.isNewline).length ≤ 2

/-- No gap of one text meets a gap of the other. -/
def KeepsGaps (a b : Chars) : Prop := Render.endsInGap a = true → b.head?.any Text.isGap = false

/-- Two texts can meet without white space being merged. -/
def Meets (o : Options) (a b : Chars) : Prop := if o.preformattedCode then KeepsNewlines a b else KeepsGaps a b

/-- At every node among some nodes, the text before it meets what comes with it. -/
def AtCuts (o : Options) (meets : Chars → Chars → Prop) (out : Chars) (ns : List Marked) : Prop :=
  ∀ before n after, ns = before ++ n :: after → meets (out ++ ownTexts o before) (ownTexts o (n :: after))

/-- No text is lost with a blank element: gaps are written around it, but not where all white space is kept. -/
def Fades (o : Options) (ks : List Marked) : Prop :=
  ∀ c ∈ ownTexts o (forest ks), o.preformattedCode = false ∧ Text.isGap c = true

/-- An element that no rule claims by its name, nor as a link. -/
def Unclaimed (t : String) (a : Attrs) : Prop := t ∉ claimedTags ∧ (t = "a" → (a.lookup "href").getD [] = [])

/-- A node that shows nothing in code but the texts in it: an inline element that no rule claims, or a blank one. -/
def IsQuiet (o : Options) : Marked → Prop
  | .text _ _ => True
  | .comment _ _ => True
  | .document _ ks => ownTexts o (forest ks) = []
  | .element m t a ks => isBlockTag t = false ∧ t ≠ "br" ∧ if m.blank then Fades o ks else Unclaimed t a

instance (a b : Chars) : Decidable (KeepsNewlines a b) := inferInstanceAs (Decidable (_ ∧ _))

instance (a b : Chars) : Decidable (KeepsGaps a b) := inferInstanceAs (Decidable (_ → _))

instance (o : Options) (a b : Chars) : Decidable (Meets o a b) :=
  inferInstanceAs (Decidable (if o.preformattedCode then KeepsNewlines a b else KeepsGaps a b))

instance (o : Options) : (n : Marked) → Decidable (IsQuiet o n)
  | .text _ _ => .isTrue trivial
  | .comment _ _ => .isTrue trivial
  | .document _ _ => inferInstanceAs (Decidable (_ = _))
  | .element m t a ks =>
    have : Decidable (Fades o ks) := inferInstanceAs (Decidable (∀ c ∈ ownTexts o (forest ks), _ ∧ _))
    have : Decidable (Unclaimed t a) := inferInstanceAs (Decidable (_ ∧ _))
    inferInstanceAs (Decidable (isBlockTag t = false ∧ t ≠ "br" ∧ if m.blank then Fades o ks else Unclaimed t a))

section

variable (o : Options)

theorem texts_cons (n : Marked) (ns : List Marked) : ownTexts o (n :: ns) = ownText o n ++ ownTexts o ns := rfl

theorem texts_append (ns ms : List Marked) : ownTexts o (ns ++ ms) = ownTexts o ns ++ ownTexts o ms :=
  List.flatMap_append

theorem texts_element (m : Mark) (t : String) (a : Attrs) (ks : List Marked) :
    ownTexts o (.element m t a ks :: descendants (.element m t a ks)) = ownTexts o (forest ks) := by
  rw [texts_cons, descendants]
  rfl

theorem cuts_cons (meets : Chars → Chars → Prop) (out : Chars) (n : Marked) (ns : List Marked) :
    AtCuts o meets out (n :: ns) ↔
      meets out (ownTexts o (n :: ns)) ∧ AtCuts o meets (out ++ ownText o n) ns := by
  constructor
  · intro cuts
    refine ⟨by simpa [ownTexts] using cuts [] n ns rfl, ?_⟩
    rintro before k after rfl
    have later := cuts (n :: before) k after rfl
    rwa [texts_cons, ← List.append_assoc] at later
  · rintro ⟨first, later⟩ before k after whole
    cases before with
    | nil =>
        obtain ⟨rfl, rfl⟩ := List.cons.inj whole
        simpa [ownTexts] using first
    | cons b before =>
        obtain ⟨rfl, rfl⟩ := List.cons.inj whole
        rw [texts_cons, ← List.append_assoc]
        exact later before k after rfl

instance decideCuts (meets : Chars → Chars → Prop) [∀ a b, Decidable (meets a b)] :
    (out : Chars) → (ns : List Marked) → Decidable (AtCuts o meets out ns)
  | _, [] => .isTrue fun before _ _ whole => by cases before <;> cases whole
  | out, n :: ns =>
    have := decideCuts meets (out ++ ownText o n) ns
    decidable_of_iff _ (cuts_cons o meets out n ns).symm

end

end Code

namespace Text

theorem ending_append (p : Char → Bool) (x a : Chars) : (ending p a).length ≤ (ending p (x ++ a)).length := by
  rw [ending, ending, List.reverse_append, List.takeWhile_append]
  split
  · rename_i whole
    rw [List.length_reverse, List.length_reverse, List.length_append]
    omega
  · exact Nat.le_refl _

theorem take_append (p : Char → Bool) (b x : Chars) : (b.takeWhile p).length ≤ ((b ++ x).takeWhile p).length := by
  rw [List.takeWhile_append]
  split
  · rename_i whole
    rw [List.length_append]
    omega
  · exact Nat.le_refl _

end Text

namespace Code

theorem keeps_join (a b : Chars) (keeps : KeepsNewlines a b) : join a b = a ++ b := by
  obtain ⟨side, few⟩ := keeps
  have left := Text.trim_end_ending Text.isNewline a
  have right : b.takeWhile Text.isNewline ++ Text.trimStart Text.isNewline b = b := List.takeWhile_append_dropWhile
  have back := newline_run _ (Text.ending_all Text.isNewline a)
  have front := newline_run (b.takeWhile Text.isNewline) fun c member => List.all_eq_true.mp List.all_takeWhile c member
  have before := congrArg List.length left
  have after := congrArg List.length right
  rw [List.length_append] at before after
  unfold join
  dsimp only
  have count : min 2 (max (a.length - (Text.trimEnd Text.isNewline a).length)
      (b.length - (Text.trimStart Text.isNewline b).length)) =
      (Text.ending Text.isNewline a).length + (b.takeWhile Text.isNewline).length := by omega
  rw [count, List.replicate_add, ← back, ← front, ← List.append_assoc, left, List.append_assoc, right]

theorem keeps_newlines_part (x a b y : Chars) (keeps : KeepsNewlines (x ++ a) (b ++ y)) : KeepsNewlines a b := by
  have back := Text.ending_append Text.isNewline x a
  have front := Text.take_append Text.isNewline b y
  obtain ⟨side, few⟩ := keeps
  exact ⟨by omega, by omega⟩

theorem keeps_gaps_part (x a b y : Chars) (keeps : KeepsGaps (x ++ a) (b ++ y)) : KeepsGaps a b := by
  intro ends
  cases b with
  | nil => rfl
  | cons c b =>
      refine keeps ?_
      have some : a ≠ [] := by
        rintro rfl
        cases ends
      rw [Render.ends_in_gap] at ends ⊢
      rwa [List.getLast?_append_of_ne_nil x some]

/-- What rendering asks of two texts that meet. In flowing text there are no newlines to be merged. -/
structure Seam (o : Options) (a b : Chars) : Prop where
  newlines : KeepsNewlines a b
  gaps : o.preformattedCode = false → KeepsGaps a b

section

variable (o : Options)

theorem seam_part (x a b y : Chars) (seam : Seam o (x ++ a) (b ++ y)) : Seam o a b :=
  ⟨keeps_newlines_part x a b y seam.newlines, fun flowing => keeps_gaps_part x a b y (seam.gaps flowing)⟩

theorem cuts_after (out : Chars) (ns ms : List Marked) (cuts : AtCuts o (Seam o) out (ns ++ ms)) :
    AtCuts o (Seam o) (out ++ ownTexts o ns) ms := by
  rintro before n after rfl
  have later := cuts (ns ++ before) n after (by simp)
  rwa [texts_append, ← List.append_assoc] at later

theorem cuts_within (out : Chars) (ns : List Marked) (cuts : AtCuts o (Seam o) out ns) : AtCuts o (Seam o) [] ns := by
  intro before n after whole
  have here := cuts before n after whole
  rw [← List.append_nil (ownTexts o (n :: after))] at here
  exact seam_part o out _ _ [] here

theorem cuts_first (out : Chars) (n : Marked) (ns ms : List Marked) (cuts : AtCuts o (Seam o) out (n :: ns ++ ms)) :
    Seam o out (ownTexts o (n :: ns)) := by
  have first := cuts [] n (ns ++ ms) rfl
  rw [← List.cons_append, texts_append] at first
  exact seam_part o [] _ _ _ (by simpa [ownTexts] using first)

theorem cuts_last (out : Chars) (ns : List Marked) (n : Marked) (ms : List Marked)
    (cuts : AtCuts o (Seam o) out (ns ++ n :: ms)) : Seam o (ownTexts o ns) (ownTexts o (n :: ms)) := by
  have last := cuts ns n ms rfl
  rw [← List.append_nil (ownTexts o (n :: ms))] at last
  exact seam_part o out _ _ [] last

end

end Code

namespace Render

open Code

section

variable (o : Options)

-- Gaps are split off from the content of an element and written around it again.
theorem framed_whole (blank dropped : Bool) (output content : Chars)
    (starts : endsInGap output = true → (flanking content).1 = []) (core : blank = true → (flanking content).2.1 = [])
    (ends : dropped = true → (flanking content).2.2 = []) : framed blank dropped output content = content := by
  have whole := flanking_whole content
  unfold framed
  generalize flanking content = parts at starts core ends whole ⊢
  have first : (if endsInGap output = true then [] else parts.1) = parts.1 := by
    split
    · exact (starts ‹_›).symm
    · rfl
  have middle : (if blank = true then [] else parts.2.1) = parts.2.1 := by
    split
    · exact (core ‹_›).symm
    · rfl
  have last : (if dropped = true then [] else parts.2.2) = parts.2.2 := by
    split
    · exact (ends ‹_›).symm
    · rfl
  rw [first, middle, last, whole]

theorem flanking_front (s : Chars) (bare : s.head?.any Text.isGap = false) : (flanking s).1 = [] :=
  (Text.take_empty Text.isGap s).mpr bare

theorem flanking_back (s : Chars) (bare : endsInGap s = false) : (flanking s).2.2 = [] := by
  refine (Text.ending_empty Text.isGap _).mpr ?_
  obtain ⟨run, whole, -⟩ := Text.trim_start_run Text.isGap s
  generalize Text.trimStart Text.isGap s = rest at whole
  subst whole
  cases rest with
  | nil => rfl
  | cons c rest => rwa [ends_in_gap, List.getLast?_append_of_ne_nil run (List.cons_ne_nil c rest)] at bare

theorem quiet_found (m : Mark) (t : String) (a : Attrs) (ks : List Marked) (path : List Step)
    (unclaimed : m.blank = false → t ∉ claimedTags ∧ (t = "a" → (a.lookup "href").getD [] = [])) :
    ({} : RuleTable).find ⟨.element m t a ks, path⟩ o m.blank = .ok (if m.blank then Rule.blank else Rule.default) := by
  cases blank : m.blank with
  | true => rfl
  | false =>
      obtain ⟨unlisted, targetless⟩ := unclaimed blank
      simp [RuleTable.find, unlisted_unclaimed o m t a ks path unlisted targetless]

theorem code_text (s : State) (coded : s.inCode = true) (opened : List Open) (m : Mark) (data : Chars) :
    textOutput s o opened m data = ownText o (.text m data) := by
  rw [textOutput, coded, if_pos rfl, State.textOf, coded, Bool.or_true, Bool.and_true, ownText]
  cases m.shown <;> rfl

theorem quiet_level (ks : List Marked) (quiet : ∀ below ∈ forest ks, IsQuiet o below) :
    ∀ k ∈ ks, Node.isBlock k = false ∧ k.tag ≠ "br" := by
  intro k member
  have listed : k ∈ forest ks := kid_below (.document {} ks) k member
  cases k with
  | text | comment | document => exact ⟨rfl, by simp [Node.tag]⟩
  | element m t a below =>
      obtain ⟨level, unbroken, -⟩ := quiet _ listed
      exact ⟨level, unbroken⟩

theorem silent_comments (ks : List Marked) :
    ownTexts o (forest (ks.dropWhile Node.isComment)) = ownTexts o (forest ks) := by
  induction ks with
  | nil => rfl
  | cons n ks ih =>
      cases n with
      | comment m data => exact ih
      | text | element | document => rfl

theorem next_quiet (flowing : o.preformattedCode = false) (s : State) (head : Head) (path : List Step)
    (before ks : List Marked) (n : Marked) (quiet : ∀ below ∈ forest ks, IsQuiet o below) (more : List Marked)
    (next : s.nextStartsWithSpace o ⟨n, Site.pathTo head path before ks n⟩ = true) :
    (ownTexts o (forest ks ++ more)).head?.any Text.isGap = true := by
  obtain ⟨m, data, rest, shape, begins⟩ :=
    next_text o s (text_noted o s flowing) head path before ks n (quiet_level o ks quiet) next
  have text : ownText o (.text m data) = m.shown.getD (squeeze data) := by rw [ownText, flowing]; rfl
  obtain ⟨tail, whole⟩ := List.head?_eq_some_iff.mp (text ▸ begins)
  rw [texts_append, ← silent_comments, shape, forest, texts_cons, whole]
  rfl

theorem opened_coded (site : Site) (s : State) (coded : s.inCode = true) : (opened o site s).inCode = true := by
  have deep : 0 < s.codeDepth := of_decide_eq_true coded
  have deeper := opened_depth o site s
  exact decide_eq_true (by split at deeper <;> omega)

-- Where an element stands, and what is rendered of its children.
structure Around (outer : List Open) (isBlock : Bool) (path : List Step) (out : Chars) (m : Mark) (t : String)
    (a : Attrs) (ks : List Marked) (s : State) (content : Chars) : Prop where
  level : isBlockTag t = false
  found : ({} : RuleTable).find ⟨.element m t a ks, path⟩ o m.blank =
    .ok (if m.blank then Rule.blank else Rule.default)
  rendered : nodes {} o (⟨out, isBlock⟩ :: outer) (isBlockTag t) (.element m t a) path [] [] ks
    (opened o ⟨.element m t a ks, path⟩ s) = .ok content (opened o ⟨.element m t a ks, path⟩ s)

section

variable (outer : List Open) (isBlock : Bool) (path : List Step) (out : Chars) (m : Mark) (t : String) (a : Attrs)
  (ks : List Marked) (s : State) (content : Chars)
  (around : Around o outer isBlock path out m t a ks s content)

include around

theorem kept_written (kept : o.preformattedCode = true) (inside : Site.hasAncestor ["code"] ⟨.element m t a ks, path⟩ = true)
    (lost : m.blank = true → content = []) :
    node {} o outer isBlock path out (.element m t a ks) s = .ok (join out content) s := by
  obtain ⟨level, found, rendered⟩ := around
  have passed := inline_passed o m t a ks path s level
  have asks : (if m.blank then Rule.blank else Rule.default).rendersChildren = true := by cases m.blank <;> rfl
  refine node_replaced {} o outer isBlock path out m t a ks _ content content found asks passed.entered rendered ?_
    passed.left
  have code : Site.isCode ⟨.element m t a ks, path⟩ = true := by rw [Site.isCode, inside, Bool.or_true]
  rw [replace, kept, code, Bool.and_self, Bool.or_true, if_pos rfl, inline_replacement o _ m t a ks path level]
  split
  · rw [lost ‹_›]
  · rfl

theorem flowing_written (flowing : o.preformattedCode = false)
    (starts : endsInGap out = true → content.head?.any Text.isGap = false)
    (lost : m.blank = true → ∀ c ∈ content, Text.isGap c = true)
    (ends : ∀ s' : State, s'.nextStartsWithSpace o ⟨.element m t a ks, path⟩ = true → endsInGap content = false) :
    node {} o outer isBlock path out (.element m t a ks) s = .ok (join out content) s := by
  obtain ⟨level, found, rendered⟩ := around
  obtain ⟨dropped, written, next⟩ := inline_written o outer isBlock path out m t a ks s _ level
    (by rw [flowing]; rfl) found (inline_passed o m t a ks path s level) content rendered
  rwa [framed_whole m.blank dropped out content (fun gap => flanking_front content (starts gap))
    (fun blank => flanking_bare content (lost blank)) fun gone => flanking_back content (ends _ (next gone))] at written

end

end

mutual

theorem node_quiet (o : Options) (s : State) (coded : s.inCode = true) (outer : List Open) (isBlock : Bool)
    (path : List Step) (out : Chars) (n : Marked) (more : List Marked)
    (quiet : ∀ below ∈ n :: descendants n, IsQuiet o below)
    (adopted : ∀ below ∈ n :: descendants n, below.mark.adopted = true)
    (inside : Site.hasAncestor ["code"] ⟨n, path⟩ = true)
    (cuts : AtCuts o (Seam o) out (n :: descendants n ++ more))
    (follows : o.preformattedCode = false → ∀ s' : State, s'.nextStartsWithSpace o ⟨n, path⟩ = true →
      (ownTexts o more).head?.any Text.isGap = true) :
    node {} o outer isBlock path out n s = .ok (out ++ ownTexts o (n :: descendants n)) s := by
  have seam := cuts_first o out n (descendants n) more cuts
  cases n with
  | text m data =>
      have own : ownTexts o (.text m data :: descendants (.text m data)) = ownText o (.text m data) := by
        simp [ownTexts, descendants]
      rw [own] at seam ⊢
      rw [← keeps_join _ _ seam.newlines, ← code_text o s coded (⟨out, isBlock⟩ :: outer)]
      rfl
  | comment m data => simp [node, ownTexts, ownText, descendants, pure, EStateM.pure]
  | document m ks =>
      have none : ownTexts o (forest ks) = [] := quiet _ List.mem_cons_self
      simp [node, texts_cons, ownText, descendants, none, pure, EStateM.pure]
  | element m t a ks =>
      obtain ⟨level, -, kind⟩ := quiet _ List.mem_cons_self
      have after := cuts_after o out [.element m t a ks] (forest ks ++ more) (by simpa [descendants] using cuts)
      have rendered := nodes_quiet o (opened o ⟨.element m t a ks, path⟩ s) (opened_coded o _ s coded)
        (⟨out, isBlock⟩ :: outer) (isBlockTag t) (.element m t a) path [] [] ks more
        (fun below member => quiet below (List.mem_cons_of_mem _ member))
        (fun below member => adopted below (List.mem_cons_of_mem _ member))
        (.inr inside) (cuts_within o _ _ after)
      have found := quiet_found o m t a ks path fun solid => by rwa [solid, if_neg Bool.false_ne_true] at kind
      have around : Around o outer isBlock path out m t a ks s (ownTexts o (forest ks)) :=
        ⟨level, found, by rwa [List.nil_append] at rendered⟩
      rw [texts_element] at seam ⊢
      rw [← keeps_join _ _ seam.newlines]
      cases mode : o.preformattedCode with
      | true =>
          refine kept_written o outer isBlock path out m t a ks s _ around mode inside fun blank => ?_
          rw [blank, if_pos rfl] at kind
          refine List.eq_nil_iff_forall_not_mem.mpr fun c member => ?_
          exact absurd (mode.symm.trans (kind c member).1) Bool.noConfusion
      | false =>
          refine flowing_written o outer isBlock path out m t a ks s _ around mode (seam.gaps mode) ?_ ?_
          · intro blank c member
            rw [blank, if_pos rfl] at kind
            exact (kind c member).2
          · intro s' next
            have begins := follows mode s' next
            rw [← texts_element o m t a ks]
            cases more with
            | nil => cases begins
            | cons k more =>
                have apart := (cuts_last o out _ k more cuts).gaps mode
                by_contra ends
                rw [apart (by simpa using ends)] at begins
                cases begins

theorem nodes_quiet (o : Options) (s : State) (coded : s.inCode = true) (outer : List Open) (isBlock : Bool)
    (head : Head) (path : List Step) (before : List Marked) (out : Chars) (ks more : List Marked)
    (quiet : ∀ below ∈ forest ks, IsQuiet o below) (adopted : ∀ below ∈ forest ks, below.mark.adopted = true)
    (inside : head.tag = "code" ∨ Site.hasAncestor ["code"] ⟨.text {} [], path⟩ = true)
    (cuts : AtCuts o (Seam o) out (forest ks ++ more)) :
    nodes {} o outer isBlock head path before out ks s = .ok (out ++ ownTexts o (forest ks)) s := by
  cases ks with
  | nil => simp [nodes, ownTexts, forest, pure, EStateM.pure]
  | cons n rest =>
      have parts : forest (n :: rest) = n :: descendants n ++ forest rest := rfl
      rw [parts, List.append_assoc] at cuts
      rw [parts] at quiet adopted
      rw [List.forall_mem_append] at quiet adopted
      have place := Site.step_to head path before rest n (adopted.1 n List.mem_cons_self)
      have above : Site.hasAncestor ["code"] ⟨n, Site.pathTo head path before rest n⟩ = true := by
        rw [place, Site.hasAncestor, List.any_cons, Bool.or_eq_true]
        exact inside.imp (fun code => by simp [code]) id
      have rendered := node_quiet o s coded outer isBlock (Site.pathTo head path before rest n) out n
        (forest rest ++ more) quiet.1 adopted.1 above cuts
        fun flowing s' next => next_quiet o flowing s' head path before rest n quiet.2 more next
      have finished := nodes_quiet o s coded outer isBlock head path (n :: before) _ rest more quiet.2 adopted.2 inside
        (cuts_after o out _ _ cuts)
      rw [nodes, parts, texts_append, ← List.append_assoc]
      simp only [bind, EStateM.bind, rendered, finished]

end

end Render

end Downmark
