import Downmark.Proofs.OpenElements
/-!
Rendering that only looks at how deep it is in code and preformatted text. Nothing else of the state
reaches the output as long as links are written in place, and leaving an element undoes entering it.
Main statements: rendering leaves the counters of the state as they were, and where links are written in
place it gives one answer in all states of one depth, and leaves them as they are.
-/

set_option autoImplicit false

namespace Downmark

namespace RuleTable

theorem first_claim_claims (site : Site) (o : Options) (rules : List Rule) (found : Rule)
    (claimed : firstClaim site o rules = .ok (some found)) : found.claims site o = .ok true := by
  induction rules with
  | nil => cases claimed
  | cons first rest ih =>
      unfold firstClaim at claimed
      split at claimed
      · cases claimed
      · rename_i claims
        cases claimed
        exact claims
      · exact ih claimed

theorem find_cases (table : RuleTable) (site : Site) (o : Options) (blank : Bool) (rule : Rule)
    (found : table.find site o blank = .ok rule) :
    (blank = true ∧ rule = Rule.blank) ∨
      (blank = false ∧ rule ∈ table.inOrder ∧ rule.claims site o = .ok true) ∨
      (blank = false ∧ rule = Rule.default ∧ firstClaim site o table.inOrder = .ok none) := by
  cases blank with
  | true =>
      cases found
      exact .inl ⟨rfl, rfl⟩
  | false =>
      cases first : firstClaim site o table.inOrder with
      | error failure => simp [find, first] at found
      | ok claimed =>
          cases claimed with
          | none =>
              refine .inr (.inr ⟨rfl, ?_, rfl⟩)
              simpa [find, first] using found.symm
          | some claimant =>
              obtain rfl : claimant = rule := by simpa [find, first] using found
              exact .inr (.inl ⟨rfl, first_claim_mem site o _ _ first, first_claim_claims site o _ _ first⟩)

end RuleTable

namespace Render

def answer {α : Type} (work : Rendering α) (s : State) : Except Failure α :=
  match work s with
  | .ok a _ => .ok a
  | .error failure _ => .error failure

def contentText (table : RuleTable) (o : Options) (outer : List Open) (m : Mark) (t : String) (a : Attrs)
    (path : List Step) (ks : List Marked) (rule : Rule) : Rendering Chars :=
  if rule.rendersChildren then nodes table o outer (isBlockTag t) (.element m t a) path [] [] ks else pure []

-- What the rule of an element writes for it. It is only then joined to what stands before.
def elementText (table : RuleTable) (o : Options) (outer : List Open) (isBlock : Bool) (path : List Step)
    (output : Chars) (m : Mark) (t : String) (a : Attrs) (ks : List Marked) : Rendering Chars := do
  let site : Site := ⟨.element m t a ks, path⟩
  let rule ← ruleFor table o site
  enter o site
  let content ← contentText table o (⟨output, isBlock⟩ :: outer) m t a path ks rule
  let written ← replace rule site o content output
  leave o site
  pure written

theorem node_element (table : RuleTable) (o : Options) (outer : List Open) (isBlock : Bool) (path : List Step)
    (output : Chars) (m : Mark) (t : String) (a : Attrs) (ks : List Marked) :
    node table o outer isBlock path output (.element m t a ks) =
      (do
        let written ← elementText table o outer isBlock path output m t a ks
        pure (join output written)) := by
  rw [node, elementText]
  simp only [bind_assoc, pure_bind]
  refine bind_congr fun rule => bind_congr fun _ => ?_
  unfold contentText
  split
  · rfl
  · simp only [pure_bind]

theorem element_found (table : RuleTable) (o : Options) (outer : List Open) (isBlock : Bool) (path : List Step)
    (output : Chars) (m : Mark) (t : String) (a : Attrs) (ks : List Marked) (rule : Rule)
    (found : table.find ⟨.element m t a ks, path⟩ o m.blank = .ok rule) :
    elementText table o outer isBlock path output m t a ks =
      (do
        enter o ⟨.element m t a ks, path⟩
        let written ← (do
          let content ← contentText table o (⟨output, isBlock⟩ :: outer) m t a path ks rule
          replace rule ⟨.element m t a ks, path⟩ o content output)
        leave o ⟨.element m t a ks, path⟩
        pure written) := by
  have ruled : ruleFor table o ⟨.element m t a ks, path⟩ = pure rule := by
    unfold ruleFor
    rw [show (⟨.element m t a ks, path⟩ : Site).node.mark.blank = m.blank from rfl, found]
  simp only [elementText, ruled, pure_bind, bind_assoc]

theorem element_failed (table : RuleTable) (o : Options) (outer : List Open) (isBlock : Bool) (path : List Step)
    (output : Chars) (m : Mark) (t : String) (a : Attrs) (ks : List Marked) (failure : Failure)
    (found : table.find ⟨.element m t a ks, path⟩ o m.blank = .error failure) :
    elementText table o outer isBlock path output m t a ks = throw failure := by
  have refused : ruleFor table o ⟨.element m t a ks, path⟩ = throw failure := by
    unfold ruleFor
    rw [show (⟨.element m t a ks, path⟩ : Site).node.mark.blank = m.blank from rfl, found]
  simp only [elementText, refused]
  rfl

theorem container_text (table : RuleTable) (o : Options) (outer : List Open) (isBlock : Bool) (path : List Step)
    (output : Chars) (m : Mark) (t : String) (a : Attrs) (ks : List Marked) (rule : Rule) (block : isBlockTag t = true)
    (found : table.find ⟨.element m t a ks, path⟩ o m.blank = .ok rule) (renders : rule.rendersChildren = true) :
    elementText table o outer isBlock path output m t a ks = (do
      enter o ⟨.element m t a ks, path⟩
      let written ← nodes table o (⟨output, isBlock⟩ :: outer) true (.element m t a) path [] [] ks >>= fun content =>
        rule.replacement content ⟨.element m t a ks, path⟩ o
      leave o ⟨.element m t a ks, path⟩
      pure written) := by
  have inside : (do
      let content ← contentText table o (⟨output, isBlock⟩ :: outer) m t a path ks rule
      replace rule ⟨.element m t a ks, path⟩ o content output) =
      nodes table o (⟨output, isBlock⟩ :: outer) true (.element m t a) path [] [] ks >>= fun content =>
        rule.replacement content ⟨.element m t a ks, path⟩ o := by
    have border : Node.isBlock (.element m t a ks) = true := block
    simp only [contentText, renders, if_true, block, replace, border, Bool.true_or]
  rw [element_found table o outer isBlock path output m t a ks rule found, inside]

theorem node_replaced (table : RuleTable) (o : Options) (outer : List Open) (isBlock : Bool) (path : List Step)
    (output : Chars) (m : Mark) (t : String) (a : Attrs) (ks : List Marked) (rule : Rule)
    {s inner middle last u : State} (content written : Chars)
    (found : table.find ⟨.element m t a ks, path⟩ o m.blank = .ok rule) (renders : rule.rendersChildren = true)
    (entered : enter o ⟨.element m t a ks, path⟩ s = .ok () inner)
    (rendered : nodes table o (⟨output, isBlock⟩ :: outer) (isBlockTag t) (.element m t a) path [] [] ks inner =
      .ok content middle)
    (replaced : replace rule ⟨.element m t a ks, path⟩ o content output middle = .ok written last)
    (left : leave o ⟨.element m t a ks, path⟩ last = .ok () u) :
    node table o outer isBlock path output (.element m t a ks) s = .ok (join output written) u := by
  rw [node_element, element_found table o outer isBlock path output m t a ks rule found]
  simp only [contentText, renders, if_true, bind, EStateM.bind, entered, rendered, replaced, left, pure, EStateM.pure]

theorem container_written (table : RuleTable) (o : Options) (outer : List Open) (isBlock : Bool) (path : List Step)
    (output : Chars) (m : Mark) (t : String) (a : Attrs) (ks : List Marked) (rule : Rule) (s inner : State)
    {middle u : State} (content written : Chars) (block : isBlockTag t = true)
    (found : table.find ⟨.element m t a ks, path⟩ o m.blank = .ok rule) (renders : rule.rendersChildren = true)
    (entered : enter o ⟨.element m t a ks, path⟩ s = .ok () inner)
    (rendered : nodes table o (⟨output, isBlock⟩ :: outer) true (.element m t a) path [] [] ks inner =
      .ok content middle)
    (replaced : rule.replacement content ⟨.element m t a ks, path⟩ o middle = .ok written middle)
    (left : leave o ⟨.element m t a ks, path⟩ middle = .ok () u) :
    node table o outer isBlock path output (.element m t a ks) s = .ok (join output written) u := by
  have inside : nodes table o (⟨output, isBlock⟩ :: outer) (isBlockTag t) (.element m t a) path [] [] ks inner =
      .ok content middle := by rw [block, rendered]
  refine node_replaced table o outer isBlock path output m t a ks rule content written found renders entered inside ?_ left
  have border : Node.isBlock (.element m t a ks) = true := block
  rw [replace, border, Bool.true_or, if_pos rfl, replaced]

def opened (o : Options) (site : Site) (s : State) : State :=
  match site.tag with
  | "ul" => { s with listDepth := s.listDepth + 1 }
  | "ol" => { s with listDepth := s.listDepth + 1 }
  | "li" => { s with indents := Text.spaces (Block.markerOf o site).length :: s.indents }
  | "blockquote" => { s with indents := ['>', ' '] :: s.indents }
  | "code" => { s with codeDepth := s.codeDepth + 1 }
  | "pre" => if o.preformattedCode then { s with preformattedDepth := s.preformattedDepth + 1 } else s
  | _ => s

theorem enter_eq (o : Options) (site : Site) (s : State) : enter o site s =
    if needsEndlessMarker site then .error .tooManyDigits s else .ok () (opened o site s) := by
  unfold enter
  split
  · rfl
  · rfl

-- All that is known of an element that was written.
theorem element_steps (table : RuleTable) (o : Options) (outer : List Open) (isBlock : Bool) (path : List Step)
    (output : Chars) (m : Mark) (t : String) (a : Attrs) (ks : List Marked) (written : Chars) (s u : State)
    (worked : elementText table o outer isBlock path output m t a ks s = .ok written u) :
    ∃ rule content middle last, table.find ⟨.element m t a ks, path⟩ o m.blank = .ok rule ∧
      contentText table o (⟨output, isBlock⟩ :: outer) m t a path ks rule (opened o ⟨.element m t a ks, path⟩ s) =
        .ok content middle ∧
      replace rule ⟨.element m t a ks, path⟩ o content output middle = .ok written last ∧
      leave o ⟨.element m t a ks, path⟩ last = .ok () u := by
  obtain ⟨rule, s₀, ruled, entering⟩ := (bind_ok_iff _ _ _ _ _).mp worked
  obtain ⟨found, rfl⟩ := rule_for_ok table o _ s s₀ rule ruled
  obtain ⟨_, s₁, entered, reading⟩ := (bind_ok_iff _ _ _ _ _).mp entering
  obtain ⟨content, s₂, read, replacing⟩ := (bind_ok_iff _ _ _ _ _).mp reading
  obtain ⟨written', s₃, replaced, leaving⟩ := (bind_ok_iff _ _ _ _ _).mp replacing
  obtain ⟨_, s₄, left, ended⟩ := (bind_ok_iff _ _ _ _ _).mp leaving
  cases ended
  rw [enter_eq] at entered
  split at entered
  · cases entered
  · cases entered
    exact ⟨rule, content, s₂, s₃, found, read, replaced, left⟩

theorem element_ok (table : RuleTable) (o : Options) (outer : List Open) (isBlock : Bool) (path : List Step)
    (output : Chars) (m : Mark) (t : String) (a : Attrs) (ks : List Marked) (written : Chars) (s u : State)
    (worked : elementText table o outer isBlock path output m t a ks s = .ok written u) :
    ∃ rule content s₁ s₂ s₃, table.find ⟨.element m t a ks, path⟩ o m.blank = .ok rule ∧
      contentText table o (⟨output, isBlock⟩ :: outer) m t a path ks rule s₁ = .ok content s₂ ∧
      replace rule ⟨.element m t a ks, path⟩ o content output s₂ = .ok written s₃ := by
  obtain ⟨rule, content, middle, last, found, read, replaced, -⟩ :=
    element_steps table o outer isBlock path output m t a ks written s u worked
  exact ⟨rule, content, _, middle, last, found, read, replaced⟩

-- Gaps are split off before the rule is asked, and written around what it writes, but for those at the start behind
-- a gap, and maybe those at the end.
theorem replace_cases (rule : Rule) (site : Site) (o : Options) (content preceding written : Chars) (s u : State)
    (worked : replace rule site o content preceding s = .ok written u) :
    if site.node.isBlock || (o.preformattedCode && site.isCode) then
      rule.replacement content site o s = .ok written u
    else ∃ inner trailing, rule.replacement (Whitespace.flanking content).2.1 site o s = .ok inner u ∧
      written = (if endsInGap preceding then [] else (Whitespace.flanking content).1) ++ inner ++ trailing ∧
      (trailing = [] ∨ trailing = (Whitespace.flanking content).2.2) := by
  unfold replace at worked
  split
  · rwa [if_pos ‹_›] at worked
  · rw [if_neg ‹_›] at worked
    generalize Whitespace.flanking content = parts at worked
    obtain ⟨leading, core, trailing⟩ := parts
    obtain ⟨seen, v, got, rest⟩ := (bind_ok_iff _ _ _ _ _).mp worked
    cases got
    obtain ⟨inner, _, replaced, ended⟩ := (bind_ok_iff _ _ _ _ _).mp rest
    cases ended
    refine ⟨inner, _, replaced, rfl, ?_⟩
    split
    · exact .inl rfl
    · exact .inr rfl

theorem leave_opened (o : Options) (site : Site) (s : State) : leave o site (opened o site s) = .ok () s := by
  rcases counted_tag site.tag with tag | tag | tag | tag | tag | tag | ⟨ul, ol, li, quote, code, pre⟩
  · simp [leave, opened, tag, modify_ok]
  · simp [leave, opened, tag, modify_ok]
  · simp [leave, opened, tag]
    rfl
  · simp [leave, opened, tag]
    rfl
  · simp [leave, opened, tag, modify_ok]
  · cases asked : o.preformattedCode with
    | true => simp [leave, opened, tag, asked, modify_ok]
    | false =>
        simp [leave, opened, tag, asked]
        rfl
  · simp [leave, opened]
    rfl

theorem opened_depth (o : Options) (site : Site) (s : State) :
    (opened o site s).codeDepth = s.codeDepth + if site.tag = "code" then 1 else 0 := by
  rcases counted_tag site.tag with tag | tag | tag | tag | tag | tag | ⟨ul, ol, li, quote, code, pre⟩
  case inr.inr.inr.inr.inr.inl =>
    simp only [opened, tag]
    split <;> simp
  all_goals simp [opened, *]

theorem opened_kept (o : Options) (site : Site) (s : State) : (opened o site s).preformattedDepth =
    s.preformattedDepth + if o.preformattedCode && site.tag == "pre" then 1 else 0 := by
  rcases counted_tag site.tag with tag | tag | tag | tag | tag | tag | ⟨ul, ol, li, quote, code, pre⟩
  case inr.inr.inr.inr.inr.inl => cases asked : o.preformattedCode <;> simp [opened, tag, asked]
  all_goals simp [opened, *]

theorem leave_same (o : Options) (site : Site) (s t u v : State) (same : s.counters = t.counters)
    (left : leave o site s = .ok () u) (right : leave o site t = .ok () v) : u.counters = v.counters := by
  obtain ⟨lists, indents, kept, coded⟩ := Counters.mk.inj same
  have closed (first : outdent s = .ok () u) (second : outdent t = .ok () v) : u.counters = v.counters := by
    cases around : s.indents with
    | nil =>
        have none : outdent s = .error .noIndentation s := by
          cases s
          cases around
          rfl
        cases none.symm.trans first
    | cons indent rest =>
        cases (outdent_ok s indent rest around).symm.trans first
        cases (outdent_ok t indent rest (indents ▸ around)).symm.trans second
        simp [State.counters, lists, kept, coded]
  rcases counted_tag site.tag with tag | tag | tag | tag | tag | tag | ⟨ul, ol, li, quote, code, pre⟩
  case inr.inr.inl | inr.inr.inr.inl =>
    simp only [leave, tag] at left right
    exact closed left right
  case inr.inr.inr.inr.inr.inl =>
    cases asked : o.preformattedCode <;> simp only [leave, tag, asked] at left right <;> cases left <;> cases right <;>
      simp [State.counters, *]
  all_goals
    simp only [leave, *] at left right
    cases left
    cases right
    simp [State.counters, *]

theorem element_keeps (table : RuleTable) (keeps : ∀ rule ∈ table.inOrder, KeepsCounters rule.replacement) (o : Options)
    (outer : List Open) (isBlock : Bool) (path : List Step) (output : Chars) (m : Mark) (t : String) (a : Attrs)
    (ks : List Marked) (below : ∀ outer isBlock, Keeps (nodes table o outer isBlock (.element m t a) path [] [] ks)) :
    Keeps (elementText table o outer isBlock path output m t a ks) := by
  intro s written u worked
  obtain ⟨rule, content, middle, last, found, read, replaced, left⟩ :=
    element_steps table o outer isBlock path output m t a ks written s u worked
  have content_kept : Keeps (contentText table o (⟨output, isBlock⟩ :: outer) m t a path ks rule) := by
    unfold contentText
    split
    · exact below _ _
    · exact keeps_pure []
  have inside := content_kept _ _ _ read
  have kept := replace_keeps rule (find_keeps table keeps _ o _ rule found) _ o content output middle written last replaced
  exact leave_same o _ last _ u s (kept.trans inside) left (leave_opened o _ s)

mutual

theorem node_keeps (table : RuleTable) (keeps : ∀ rule ∈ table.inOrder, KeepsCounters rule.replacement) (o : Options)
    (outer : List Open) (isBlock : Bool) (path : List Step) (output : Chars) (n : Marked) :
    Keeps (node table o outer isBlock path output n) := by
  cases n with
  | text m data =>
      rw [node]
      exact keeps_bind _ _ keeps_get fun _ => keeps_pure _
  | comment | document =>
      rw [node]
      exact keeps_pure output
  | element m t a ks =>
      rw [node_element]
      refine keeps_bind _ _ (element_keeps table keeps o outer isBlock path output m t a ks fun outer isBlock => ?_)
        fun _ => keeps_pure _
      exact nodes_keep table keeps o outer isBlock _ path [] [] ks

theorem nodes_keep (table : RuleTable) (keeps : ∀ rule ∈ table.inOrder, KeepsCounters rule.replacement) (o : Options)
    (outer : List Open) (isBlock : Bool) (head : Head) (path : List Step) (before : List Marked) (output : Chars)
    (ks : List Marked) : Keeps (nodes table o outer isBlock head path before output ks) := by
  cases ks with
  | nil =>
      rw [nodes]
      exact keeps_pure output
  | cons n rest =>
      rw [nodes]
      exact keeps_bind _ _ (node_keeps table keeps o outer isBlock _ output n) fun output =>
        nodes_keep table keeps o outer isBlock head path _ output rest

end

-- All of the state that reaches the output.
structure Alike (s s' : State) : Prop where
  code : s.codeDepth = s'.codeDepth
  preformatted : s.preformattedDepth = s'.preformattedDepth

def Steady {α : Type} (work : Rendering α) : Prop := ∀ s s', Alike s s' →
  (∃ a, work s = .ok a s ∧ work s' = .ok a s') ∨
    ∃ failure t t', work s = .error failure t ∧ work s' = .error failure t'

theorem steady_pure {α : Type} (a : α) : Steady (pure a : Rendering α) :=
  fun _ _ _ => .inl ⟨a, rfl, rfl⟩

theorem steady_throw {α : Type} (failure : Failure) : Steady (throw failure : Rendering α) :=
  fun s s' _ => .inr ⟨failure, s, s', rfl, rfl⟩

theorem bind_of_ok {α β : Type} (first : Rendering α) (next : α → Rendering β) (s t : State) (a : α)
    (worked : first s = .ok a t) : (first >>= next) s = next a t := by
  change EStateM.bind first next s = _
  rw [EStateM.bind, worked]

-- What is written of an element within a line, except in code that is kept: the gaps at the ends of its content stand
-- around what its rule writes of the rest, as far as there are none before and behind it.
theorem replace_inner (rule : Rule) (site : Site) (o : Options) (level : site.node.isBlock = false)
    (prose : (o.preformattedCode && site.isCode) = false) (content preceding inner : Chars) (s u : State)
    (made : rule.replacement (Whitespace.flanking content).2.1 site o s = .ok inner u) :
    replace rule site o content preceding s =
      .ok ((if endsInGap preceding then [] else (Whitespace.flanking content).1) ++ inner ++
        if !(Whitespace.flanking content).2.2.isEmpty && s.nextStartsWithSpace o site then []
        else (Whitespace.flanking content).2.2) u := by
  unfold replace
  rw [level, prose, Bool.or_false, if_neg Bool.false_ne_true]
  exact (bind_ok_iff _ _ _ _ _).mpr ⟨s, s, rfl, bind_of_ok _ _ s u inner made⟩

theorem bind_of_error {α β : Type} (first : Rendering α) (next : α → Rendering β) (s t : State)
    (failure : Failure) (failed : first s = .error failure t) : (first >>= next) s = .error failure t := by
  change EStateM.bind first next s = _
  rw [EStateM.bind, failed]

theorem steady_bind {α β : Type} (first : Rendering α) (next : α → Rendering β) (before : Steady first)
    (after : ∀ a, Steady (next a)) : Steady (first >>= next) := by
  intro s s' alike
  rcases before s s' alike with ⟨a, here, there⟩ | ⟨failure, t, t', here, there⟩
  · rw [bind_of_ok first next s s a here, bind_of_ok first next s' s' a there]
    exact after a s s' alike
  · exact .inr ⟨failure, t, t', bind_of_error first next s t failure here,
      bind_of_error first next s' t' failure there⟩

theorem steady_get {α : Type} (next : State → Rendering α) (same : ∀ s s', Alike s s' → next s = next s')
    (each : ∀ s, Steady (next s)) : Steady (get >>= next) := by
  intro s s' alike
  change (∃ a, next s s = .ok a s ∧ next s' s' = .ok a s') ∨
    ∃ failure t t', next s s = .error failure t ∧ next s' s' = .error failure t'
  rw [← same s s' alike]
  exact each s s s' alike

theorem of_function_steady (f : Chars → Site → Options → State → Chars) (content : Chars) (site : Site)
    (o : Options) (same : ∀ s s', Alike s s' → f content site o s = f content site o s') :
    Steady (Replacement.ofFunction f content site o) :=
  steady_get _ (fun s s' alike => by rw [same s s' alike]) fun _ => steady_pure _

theorem opened_alike (o : Options) (site : Site) (s s' : State) (alike : Alike s s') :
    Alike (opened o site s) (opened o site s') := by
  obtain ⟨code, preformatted⟩ := alike
  rcases counted_tag site.tag with tag | tag | tag | tag | tag | tag | ⟨ul, ol, li, quote, coded, pre⟩
  · exact ⟨by simpa [opened, tag], by simpa [opened, tag]⟩
  · exact ⟨by simpa [opened, tag], by simpa [opened, tag]⟩
  · exact ⟨by simpa [opened, tag], by simpa [opened, tag]⟩
  · exact ⟨by simpa [opened, tag], by simpa [opened, tag]⟩
  · exact ⟨by simpa [opened, tag], by simpa [opened, tag]⟩
  · cases asked : o.preformattedCode
    · exact ⟨by simpa [opened, tag, asked], by simpa [opened, tag, asked]⟩
    · exact ⟨by simpa [opened, tag, asked], by simpa [opened, tag, asked]⟩
  · exact ⟨by simpa [opened], by simpa [opened]⟩

theorem steady_inside {α : Type} (o : Options) (site : Site) (work : Rendering α) (steady : Steady work) :
    Steady (do
      enter o site
      let a ← work
      leave o site
      pure a) := by
  intro s s' alike
  by_cases endless : needsEndlessMarker site
  · have refused (s : State) : enter o site s = .error .tooManyDigits s := by rw [enter_eq, if_pos endless]
    exact .inr ⟨.tooManyDigits, s, s', bind_of_error _ _ s s _ (refused s), bind_of_error _ _ s' s' _ (refused s')⟩
  · have entering (s : State) : enter o site s = .ok () (opened o site s) := by rw [enter_eq, if_neg endless]
    rw [bind_of_ok _ _ s _ () (entering s), bind_of_ok _ _ s' _ () (entering s')]
    rcases steady _ _ (opened_alike o site s s' alike) with ⟨a, here, there⟩ | ⟨failure, t, t', here, there⟩
    · rw [bind_of_ok _ _ _ _ a here, bind_of_ok _ _ _ _ a there,
        bind_of_ok _ _ _ _ () (leave_opened o site s), bind_of_ok _ _ _ _ () (leave_opened o site s')]
      exact .inl ⟨a, rfl, rfl⟩
    · exact .inr ⟨failure, t, t', bind_of_error _ _ _ t _ here, bind_of_error _ _ _ t' _ there⟩

section

variable (o : Options) (s s' : State) (alike : Alike s s')

include alike

theorem text_of_alike (m : Mark) (data : Chars) : s.textOf o m data = s'.textOf o m data := by
  unfold State.textOf State.inPreformatted State.inCode
  rw [alike.code, alike.preformatted]

theorem empty_text_alike (n : Marked) : s.isEmptyText o n = s'.isEmptyText o n := by
  cases n with
  | text m data => simp only [State.isEmptyText, text_of_alike o s s' alike]
  | comment | element | document => rfl

theorem following_alike (site : Site) : s.hasFollowingContent o site = s'.hasFollowingContent o site := by
  simp only [State.hasFollowingContent, empty_text_alike o s s' alike]

theorem next_space_alike (site : Site) : s.nextStartsWithSpace o site = s'.nextStartsWithSpace o site := by
  simp only [State.nextStartsWithSpace, text_of_alike o s s' alike]

theorem text_output_alike (opened : List Open) (m : Mark) (data : Chars) :
    textOutput s o opened m data = textOutput s' o opened m data := by
  unfold textOutput State.inPreformatted State.inCode
  rw [text_of_alike o s s' alike, alike.code, alike.preformatted]

end

theorem replace_steady (rule : Rule) (site : Site) (o : Options)
    (steady : ∀ content, Steady (rule.replacement content site o)) (content preceding : Chars) :
    Steady (replace rule site o content preceding) := by
  unfold replace
  split
  · exact steady content
  · refine steady_get _ (fun s s' alike => ?_) fun s => steady_bind _ _ (steady _) fun _ => steady_pure _
    rw [next_space_alike o s s' alike]

def SteadyTable (table : RuleTable) (o : Options) : Prop := ∀ site blank rule,
  table.find site o blank = .ok rule → ∀ content, Steady (rule.replacement content site o)

theorem element_steady (table : RuleTable) (o : Options) (steady : SteadyTable table o) (outer : List Open)
    (isBlock : Bool) (path : List Step) (output : Chars) (m : Mark) (t : String) (a : Attrs) (ks : List Marked)
    (below : ∀ outer isBlock head, Steady (nodes table o outer isBlock head path [] [] ks)) :
    Steady (elementText table o outer isBlock path output m t a ks) := by
  cases found : table.find ⟨.element m t a ks, path⟩ o m.blank with
  | error failure =>
      rw [element_failed table o outer isBlock path output m t a ks failure found]
      exact steady_throw failure
  | ok rule =>
      have content : Steady (contentText table o (⟨output, isBlock⟩ :: outer) m t a path ks rule) := by
        unfold contentText
        split
        · exact below _ _ _
        · exact steady_pure []
      rw [element_found table o outer isBlock path output m t a ks rule found]
      exact steady_inside o _ _ (steady_bind _ _ content fun content =>
        replace_steady rule _ o (steady _ _ rule found) content output)

mutual

theorem node_steady (table : RuleTable) (o : Options) (steady : SteadyTable table o) (outer : List Open)
    (isBlock : Bool) (path : List Step) (output : Chars) (n : Marked) :
    Steady (node table o outer isBlock path output n) := by
  cases n with
  | text m data =>
      rw [node]
      exact steady_get _ (fun s s' alike => by rw [text_output_alike o s s' alike]) fun _ => steady_pure _
  | comment m data =>
      rw [node]
      exact steady_pure output
  | document m ks =>
      rw [node]
      exact steady_pure output
  | element m t a ks =>
      rw [node_element]
      refine steady_bind _ _ (element_steady table o steady outer isBlock path output m t a ks ?_)
        fun written => steady_pure _
      exact fun outer isBlock head => nodes_steady table o steady outer isBlock head path [] [] ks

theorem nodes_steady (table : RuleTable) (o : Options) (steady : SteadyTable table o) (outer : List Open)
    (isBlock : Bool) (head : Head) (path : List Step) (before : List Marked) (output : Chars) (ks : List Marked) :
    Steady (nodes table o outer isBlock head path before output ks) := by
  cases ks with
  | nil =>
      rw [nodes]
      exact steady_pure output
  | cons n rest =>
      rw [nodes]
      exact steady_bind _ _ (node_steady table o steady outer isBlock _ output n)
        fun output => nodes_steady table o steady outer isBlock head path _ output rest

end

theorem image_steady (content : Chars) (site : Site) (o : Options) (inlined : o.linkStyle = .inlined) :
    Steady (Link.image content site o) := by
  have inPlace : ¬ o.linkStyle = .referenced := by simp [inlined]
  dsimp only [Link.image]
  split
  · exact steady_pure []
  · exact steady_pure _

theorem indented_code_steady (content : Chars) (site : Site) (o : Options) :
    Steady (Block.indentedCode content site o) := by
  unfold Block.indentedCode
  split
  · exact steady_pure _
  · exact steady_throw _

theorem fenced_code_steady (content : Chars) (site : Site) (o : Options) :
    Steady (Block.fencedCode content site o) := by
  unfold Block.fencedCode
  split
  · exact steady_pure _
  · exact steady_throw _
  · exact steady_throw _

-- An item asks the state for what follows it, and the state only tells of texts that nothing is noted on.
theorem list_item_steady (content : Chars) (site : Site) (o : Options) :
    Steady (Block.listItem content site o) :=
  of_function_steady _ content site o fun s s' alike => by rw [following_alike o s s' alike]

section

variable (o : Options) (site : Site) (content : Chars)

theorem stateless_steady (f : Chars → Site → Options → Chars) :
    Steady (Replacement.ofFunction (fun content site o _ => f content site o) content site o) :=
  of_function_steady _ content site o fun _ _ _ => rfl

theorem listed_steady (inlined : o.linkStyle = .inlined) :
    ∀ rule ∈ CommonMark.rules, rule.claims site o = .ok true → Steady (rule.replacement content site o) := by
  have plain := stateless_steady o site content
  have elsewhere : ¬ o.linkStyle = .referenced := by simp [inlined]
  simp only [CommonMark.rules, List.forall_mem_cons]
  refine ⟨fun _ => plain _, fun _ => plain _, fun _ => plain _, fun _ => plain _, fun _ => plain _,
    fun _ => list_item_steady content site o, fun _ => indented_code_steady content site o,
    fun _ => fenced_code_steady content site o, fun _ => plain _, fun _ => plain _, fun _ => plain _, ?_,
    fun _ => plain _, fun _ => plain _, fun _ => plain _, fun _ => image_steady content site o inlined, by simp⟩
  intro claims
  simp [Rule.claims, Filter.holds, elsewhere] at claims

end

-- Every element is claimed by some rule, or by none: no default rule fails to answer.
theorem rule_found (o : Options) (site : Site) (blank : Bool) :
    ∃ rule, ({} : RuleTable).find site o blank = .ok rule := by
  have answers : ∀ rule ∈ ({} : RuleTable).inOrder, ∃ claimed, rule.claims site o = .ok claimed := by
    have listed : ∀ rule ∈ CommonMark.rules, ∃ claimed, rule.claims site o = .ok claimed := by
      simp only [CommonMark.rules, List.forall_mem_cons]
      exact ⟨⟨_, rfl⟩, ⟨_, rfl⟩, ⟨_, rfl⟩, ⟨_, rfl⟩, ⟨_, rfl⟩, ⟨_, rfl⟩, ⟨_, rfl⟩, ⟨_, rfl⟩, ⟨_, rfl⟩, ⟨_, rfl⟩, ⟨_, rfl⟩,
        ⟨_, rfl⟩, ⟨_, rfl⟩, ⟨_, rfl⟩, ⟨_, rfl⟩, ⟨_, rfl⟩, by simp⟩
    intro rule member
    rcases List.mem_append.mp member with builtin | removed
    · exact listed rule (by simpa using builtin)
    · obtain ⟨tag, -, rfl⟩ := List.mem_map.mp removed
      exact ⟨_, rfl⟩
  have first (rules : List Rule) (answers : ∀ rule ∈ rules, ∃ claimed, rule.claims site o = .ok claimed) :
      ∃ found, RuleTable.firstClaim site o rules = .ok found := by
    induction rules with
    | nil => exact ⟨none, rfl⟩
    | cons rule rest ih =>
        rw [List.forall_mem_cons] at answers
        obtain ⟨claimed, answer⟩ := answers.1
        rw [RuleTable.firstClaim, answer]
        cases claimed with
        | true => exact ⟨some rule, rfl⟩
        | false => exact ih answers.2
  cases blank with
  | true => exact ⟨Rule.blank, rfl⟩
  | false =>
      obtain ⟨found, claimed⟩ := first _ answers
      rw [RuleTable.find, if_neg Bool.false_ne_true, claimed]
      exact ⟨found.getD Rule.default, rfl⟩

theorem inlined_table_steady (o : Options) (inlined : o.linkStyle = .inlined) : SteadyTable {} o := by
  intro site blank rule found content
  rcases RuleTable.find_cases {} site o blank rule found with ⟨-, rfl⟩ | ⟨-, listed, claims⟩ | ⟨-, rfl, -⟩
  · change Steady (Rule.blankReplacement content site o)
    exact stateless_steady o site content _
  · rcases List.mem_append.mp listed with builtin | removed
    · exact listed_steady o site content inlined rule (by simpa using builtin) claims
    · obtain ⟨tag, -, rfl⟩ := List.mem_map.mp removed
      change Steady (Rule.removeReplacement content site o)
      exact stateless_steady o site content _
  · change Steady (Rule.defaultReplacement content site o)
    exact stateless_steady o site content _

end Render

end Downmark
