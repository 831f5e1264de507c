import Downmark.Proofs.Moments
import Downmark.Proofs.PlainElements
/-!
What the state counts are the elements that are open. Entering an element and leaving it are told
apart by its name, each in its own way, and undo one another. Main statement: as long as the rules
leave the counters alone, these mirror the open elements at every moment of a rendering.
-/

set_option autoImplicit false

namespace Downmark

structure Counters where
  lists : Int := 0
  -- Innermost first, as in the state.
  indents : List Chars := []
  preformatted : Int := 0
  code : Int := 0

def State.counters (s : State) : Counters := ⟨s.listDepth, s.indents, s.preformattedDepth, s.codeDepth⟩

namespace Render

def indentOf (o : Options) (site : Site) : Option Chars :=
  if site.tag = "blockquote" then some ['>', ' ']
  else if site.tag = "li" then some (Text.spaces (Block.markerOf o site).length)
  else none

-- The counters that some open elements ask for, the innermost one coming first.
def mirror (o : Options) (opened : List Site) : Counters where
  lists := opened.countP fun site => site.tag == "ul" || site.tag == "ol"
  indents := opened.filterMap (indentOf o)
  preformatted := if o.preformattedCode then opened.countP fun site => site.tag == "pre" else 0
  code := opened.countP fun site => site.tag == "code"

def openElements (frames : List Frame) : List Site := frames.filterMap fun frame => frame.opener.map (·.1)

def Keeps {α : Type} (work : Rendering α) : Prop := ∀ s a t, work s = .ok a t → t.counters = s.counters

def KeepsCounters (replacement : Replacement) : Prop := ∀ content site o, Keeps (replacement content site o)

theorem keeps_pure {α : Type} (a : α) : Keeps (pure a : Rendering α) := by
  rintro s b t ⟨⟩
  rfl

theorem keeps_get : Keeps (get : Rendering State) := by
  rintro s b t ⟨⟩
  rfl

theorem keeps_throw {α : Type} (failure : Failure) : Keeps (throw failure : Rendering α) := by
  rintro s b t ⟨⟩

theorem keeps_bind {α β : Type} (first : Rendering α) (next : α → Rendering β) (before : Keeps first)
    (after : ∀ a, Keeps (next a)) : Keeps (first >>= next) := by
  intro s b u worked
  obtain ⟨a, t, here, there⟩ := (bind_ok_iff first next s u b).mp worked
  rw [after a t b u there, before s a t here]

theorem of_function_keeps (f : Chars → Site → Options → State → Chars) : KeepsCounters (.ofFunction f) :=
  fun _ _ _ => keeps_bind _ _ keeps_get fun _ => keeps_pure _

theorem note_keeps (event : Event) : Keeps (noteRendering event) := by
  rintro s a t ⟨⟩
  rfl

-- The state is written back with other references only, so it matters that it is the one just read.
theorem ask_keeps (label : Chars) (request : Reference.Collector → Reference.Added × Reference.Collector) :
    Keeps (Link.ask label request) := by
  intro s a u asked
  obtain ⟨_, _, ⟨⟩, rest⟩ := (bind_ok_iff _ _ _ _ _).mp asked
  obtain ⟨_, t, stored, told⟩ := (bind_ok_iff _ _ _ _ _).mp rest
  have kept : t.counters = s.counters := by
    cases stored
    rfl
  rw [← kept]
  generalize (request s.references).1 = added at told
  cases added with
  | renamed fresh => exact keeps_bind _ _ (note_keeps _) (fun _ => keeps_pure _) t a u told
  | reused | asAsked => exact keeps_pure _ t a u told

theorem reference_suffix_keeps (text url : Chars) (title : Option Chars) (style : LabelStyle) :
    Keeps (Link.referenceSuffix text url title style) := by
  unfold Link.referenceSuffix
  split
  · exact keeps_bind _ _ (ask_keeps _ _) fun _ => keeps_pure _
  · refine keeps_bind _ _ (ask_keeps _ _) fun label => ?_
    split
    · exact keeps_pure _
    · exact keeps_pure _

theorem reference_link_keeps : KeepsCounters Link.referenceLink :=
  fun _ _ _ => keeps_bind _ _ (reference_suffix_keeps _ _ _ _) fun _ => keeps_pure _

theorem image_keeps : KeepsCounters Link.image := by
  intro content site o
  dsimp only [Link.image]
  split
  · exact keeps_pure _
  · split
    · exact keeps_bind _ _ (reference_suffix_keeps _ _ _ _) fun _ => keeps_pure _
    · exact keeps_bind _ _ (keeps_pure _) fun _ => keeps_pure _

theorem indented_code_keeps : KeepsCounters Block.indentedCode := by
  intro content site o
  unfold Block.indentedCode
  split
  · exact keeps_pure _
  · exact keeps_throw _

theorem fenced_code_keeps : KeepsCounters Block.fencedCode := by
  intro content site o
  unfold Block.fencedCode
  split
  · exact keeps_pure _
  · exact keeps_throw _
  · exact keeps_throw _

theorem markdown_rules_keep : ∀ rule ∈ CommonMark.rules, KeepsCounters rule.replacement := by
  simp only [CommonMark.rules, List.forall_mem_cons]
  exact ⟨of_function_keeps _, of_function_keeps _, of_function_keeps _, of_function_keeps _,
    of_function_keeps _, of_function_keeps _, indented_code_keeps, fenced_code_keeps,
    of_function_keeps _, of_function_keeps _, of_function_keeps _, reference_link_keeps,
    of_function_keeps _, of_function_keeps _, of_function_keeps _, image_keeps, by simp⟩

theorem default_table_keeps : ∀ rule ∈ ({} : RuleTable).inOrder, KeepsCounters rule.replacement := by
  intro rule member
  rcases List.mem_append.mp member with listed | removed
  · exact markdown_rules_keep rule (by simpa using listed)
  · obtain ⟨tag, -, rfl⟩ := List.mem_map.mp removed
    exact of_function_keeps _

theorem find_keeps (table : RuleTable) (keeps : ∀ rule ∈ table.inOrder, KeepsCounters rule.replacement)
    (site : Site) (o : Options) (blank : Bool) (rule : Rule) (found : table.find site o blank = .ok rule) :
    KeepsCounters rule.replacement := by
  unfold RuleTable.find at found
  split at found
  · cases found
    exact of_function_keeps _
  · split at found
    · cases found
    · rename_i claimed first
      cases claimed with
      | none =>
          cases found
          exact of_function_keeps _
      | some claimant =>
          cases found
          exact keeps _ (RuleTable.first_claim_mem site o _ _ first)

theorem replace_keeps (rule : Rule) (keeps : KeepsCounters rule.replacement) (site : Site) (o : Options)
    (content preceding : Chars) : Keeps (replace rule site o content preceding) := by
  unfold replace
  split
  · exact keeps content site o
  · exact keeps_bind _ _ keeps_get fun _ => keeps_bind _ _ (keeps _ site o) fun _ => keeps_pure _

theorem mirror_cons (o : Options) (site : Site) (opened : List Site) : mirror o (site :: opened) =
    { lists := (mirror o opened).lists + if site.tag == "ul" || site.tag == "ol" then 1 else 0
      indents := (indentOf o site).toList ++ (mirror o opened).indents
      preformatted := (mirror o opened).preformatted + if o.preformattedCode && site.tag == "pre" then 1 else 0
      code := (mirror o opened).code + if site.tag == "code" then 1 else 0 } := by
  have counted (p : Site → Bool) :
      (((site :: opened).countP p : Nat) : Int) = opened.countP p + if p site then 1 else 0 := by
    rw [List.countP_cons]
    split <;> simp
  have indents : (site :: opened).filterMap (indentOf o) =
      (indentOf o site).toList ++ opened.filterMap (indentOf o) := by
    rw [List.filterMap_cons]
    cases indentOf o site <;> rfl
  unfold mirror
  rw [counted, counted, counted, indents]
  cases o.preformattedCode <;> simp

theorem counted_tag (t : String) : t = "ul" ∨ t = "ol" ∨ t = "li" ∨ t = "blockquote" ∨ t = "code" ∨ t = "pre" ∨
    (t ≠ "ul" ∧ t ≠ "ol" ∧ t ≠ "li" ∧ t ≠ "blockquote" ∧ t ≠ "code" ∧ t ≠ "pre") := by
  grind

theorem enter_mirrors (o : Options) (opened : List Site) (site : Site) (s u : State)
    (mirrors : s.counters = mirror o opened) (entering : enter o site s = .ok () u) :
    u.counters = mirror o (site :: opened) := by
  unfold enter at entering
  split at entering
  · cases entering
  · cases entering
    rw [mirror_cons, ← mirrors]
    rcases counted_tag site.tag with tag | tag | tag | tag | tag | tag | ⟨ul, ol, li, quote, code, pre⟩
    · simp [State.counters, tag, indentOf]
    · simp [State.counters, tag, indentOf]
    · simp [State.counters, tag, indentOf]
    · simp [State.counters, tag, indentOf]
    · simp [State.counters, tag, indentOf]
    · cases o.preformattedCode <;> simp [State.counters, tag, indentOf]
    · simp [State.counters, ul, ol, li, quote, code, pre, indentOf]

theorem modify_ok (f : State → State) (s : State) : (modify f : Rendering Unit) s = .ok () (f s) := rfl

theorem outdent_ok (t : State) (indent : Chars) (rest : List Chars) (indents : t.indents = indent :: rest) :
    outdent t = .ok () { t with indents := rest } := by
  cases t
  cases indents
  rfl

theorem leave_mirrors (o : Options) (opened : List Site) (site : Site) (t : State)
    (mirrors : t.counters = mirror o (site :: opened)) :
    ∃ u, leave o site t = .ok () u ∧ u.counters = mirror o opened := by
  rw [mirror_cons] at mirrors
  obtain ⟨lists, indents, kept, coded⟩ := Counters.mk.inj mirrors
  rcases counted_tag site.tag with tag | tag | tag | tag | tag | tag | ⟨ul, ol, li, quote, code, pre⟩
  · simp [leave, tag, modify_ok, State.counters, indentOf, lists, indents, kept, coded]
  · simp [leave, tag, modify_ok, State.counters, indentOf, lists, indents, kept, coded]
  · have shut := outdent_ok t _ _ (by simpa [tag, indentOf] using indents)
    simp [leave, tag, shut, State.counters, lists, kept, coded]
  · have shut := outdent_ok t _ _ (by simpa [tag, indentOf] using indents)
    simp [leave, tag, shut, State.counters, lists, kept, coded]
  · simp [leave, tag, modify_ok, State.counters, indentOf, lists, indents, kept, coded]
  · cases asked : o.preformattedCode with
    | true => simp [leave, tag, modify_ok, State.counters, indentOf, lists, indents, kept, coded, asked]
    | false =>
        refine ⟨t, by simp [leave, tag, asked]; rfl, ?_⟩
        simp [State.counters, tag, indentOf, lists, indents, kept, coded, asked]
  · refine ⟨t, by simp [leave]; rfl, ?_⟩
    simp [State.counters, ul, ol, li, quote, code, pre, indentOf, lists, indents, kept, coded]

-- What holds at every moment. Only the outermost frame has no element, so a rendering ends with none open.
structure Mirrored (o : Options) (now : Moment) (opened : List (Site × Rule)) : Prop where
  openers : now.frames.map Frame.opener = opened.map some ++ [none]
  counters : now.state.counters = mirror o (opened.map (·.1))
  keeps : ∀ entry ∈ opened, KeepsCounters entry.2.replacement

theorem open_elements_eq (frames : List Frame) (opened : List (Site × Rule))
    (openers : frames.map Frame.opener = opened.map some ++ [none]) :
    openElements frames = opened.map (·.1) := by
  have listed : openElements frames = (frames.map Frame.opener).filterMap (Option.map (·.1)) := by
    rw [List.filterMap_map]
    rfl
  have kept : opened.filterMap (Option.map (·.1) ∘ some) = opened.map (·.1) :=
    congrFun List.filterMap_eq_map opened
  rw [listed, openers, List.filterMap_append, List.filterMap_map, kept]
  exact List.append_nil _

theorem innermost_opened (opened : List (Site × Rule)) (entry : Site × Rule) (outer : List Frame)
    (openers : some entry :: outer.map Frame.opener = opened.map some ++ [none]) :
    ∃ others, opened = entry :: others ∧ outer.map Frame.opener = others.map some ++ [none] := by
  cases opened with
  | nil => simp at openers
  | cons first others =>
      obtain ⟨same, rest⟩ := List.cons.inj openers
      cases same
      exact ⟨others, rfl, rest⟩

theorem next_mirrored (table : RuleTable) (keeps : ∀ rule ∈ table.inOrder, KeepsCounters rule.replacement)
    (o : Options) (now later : Moment) (next : Moment.Next table o now later) (opened : List (Site × Rule))
    (mirrored : Mirrored o now opened) : ∃ others, Mirrored o later others := by
  obtain ⟨openers, counters, kept⟩ := mirrored
  obtain ⟨frames, s⟩ := now
  obtain ⟨after, u⟩ := later
  cases advance_go table o frames after s u next with
  | text => exact ⟨opened, openers, counters, kept⟩
  | skip => exact ⟨opened, openers, counters, kept⟩
  | enter opener ground m t a ks rest output outer site rule _ _ here found entered =>
      refine ⟨(site, rule) :: opened, congrArg _ openers, enter_mirrors o _ site s u counters entered, ?_⟩
      exact List.forall_mem_cons.mpr ⟨find_keeps table keeps site o _ rule found, kept⟩
  | leave site rule ground content written frame outer _ t _ replaced left =>
      obtain ⟨others, rfl, rest⟩ := innermost_opened opened (site, rule) (frame :: outer) openers
      obtain ⟨mine, theirs⟩ := List.forall_mem_cons.mp kept
      have same := replace_keeps rule mine site o content frame.output s written t replaced
      obtain ⟨v, ended, mirrors⟩ := leave_mirrors o _ site t (same.trans counters)
      obtain ⟨⟨⟩, rfl⟩ := EStateM.Result.ok.inj (left.symm.trans ended)
      exact ⟨others, rest, mirrors, theirs⟩

theorem root_frame_outermost (site top : Site) : (rootFrame site top).opener = none := by
  unfold rootFrame
  split <;> rfl

def started (o : Options) (site : Site) (s : State) : Moment := ⟨[rootFrame site ((rootOf site).prepared o)], s⟩

theorem started_rest (table : RuleTable) (o : Options) (site : Site) (s : State) :
    (started o site s).rest table o = root table o site s :=
  congrFun (root_by_frames table o site) s

theorem reaches_mirrored (table : RuleTable) (keeps : ∀ rule ∈ table.inOrder, KeepsCounters rule.replacement)
    (o : Options) (site : Site) (s : State) (fresh : s.counters = {}) (now : Moment)
    (reaches : Moment.Reaches table o (started o site s) now) : ∃ opened, Mirrored o now opened := by
  induction reaches with
  | refl =>
      refine ⟨[], ?_, fresh.trans (by simp [mirror]), by simp⟩
      exact congrArg (· :: []) (root_frame_outermost site _)
  | tail _ next ih =>
      obtain ⟨opened, mirrored⟩ := ih
      exact next_mirrored table keeps o _ _ next opened mirrored

theorem stop_opens_none (table : RuleTable) (o : Options) (last : Moment) (opened : List (Site × Rule))
    (mirrored : Mirrored o last opened) (output : Chars) (t : State)
    (stopped : advance table o last.frames last.state = .ok (.stop output) t) : t.counters = {} := by
  obtain ⟨rfl, shape⟩ := advance_stop table o last.frames output last.state t stopped
  have none : opened = [] := by
    have openers := mirrored.openers
    rcases shape with empty | ⟨opener, ground, outer, frames, outermost⟩
    · simp [empty] at openers
    · cases opened with
      | nil => rfl
      | cons entry others =>
          rw [frames] at openers
          rcases outermost with rfl | rfl <;> simp at openers
  rw [mirrored.counters, none]
  simp [mirror]

-- Every text is rendered and every replacement is asked for at a moment of the rendering, in its state.
theorem counters_mirror_open_elements (table : RuleTable) (o : Options) (site : Site) (s : State)
    (keeps : ∀ rule ∈ table.inOrder, KeepsCounters rule.replacement) (fresh : s.counters = {}) :
    (∀ now, Moment.Reaches table o (started o site s) now →
      now.rest table o = root table o site s ∧
      now.state.counters = mirror o (openElements now.frames) ∧
      ∀ closing rule ground content next outer written t,
        now.frames = ⟨some (closing, rule), ground, [], content⟩ :: next :: outer →
        replace rule closing o content next.output now.state = .ok written t →
        ∃ u, leave o closing t = .ok () u) ∧
    ∀ output t, root table o site s = .ok output t → t.counters = {} := by
  refine ⟨?_, ?_⟩
  · intro now reaches
    obtain ⟨opened, mirrored⟩ := reaches_mirrored table keeps o site s fresh now reaches
    have elements := open_elements_eq now.frames opened mirrored.openers
    refine ⟨(reaches_rest table o _ now reaches).trans (started_rest table o site s), ?_, ?_⟩
    · rw [elements, mirrored.counters]
    · intro closing rule ground content next outer written t frames replaced
      have openers := mirrored.openers
      rw [frames] at openers
      obtain ⟨others, rfl, -⟩ := innermost_opened opened (closing, rule) (next :: outer) openers
      have mine := mirrored.keeps _ List.mem_cons_self
      have same := replace_keeps rule mine closing o content next.output _ written t replaced
      obtain ⟨u, left, -⟩ := leave_mirrors o _ closing t (same.trans mirrored.counters)
      exact ⟨u, left⟩
  · intro output t ended
    rw [← started_rest] at ended
    obtain ⟨last, reaches, stopped⟩ := rest_ends table o _ output t ended
    obtain ⟨opened, mirrored⟩ := reaches_mirrored table keeps o site s fresh last reaches
    exact stop_opens_none table o last opened mirrored output t stopped

def quotedItem : Tree :=
  .element () "blockquote" [] [.element () "ul" [] [.element () "li" [] [.text () ['a']]]]

theorem quoted_item_mirrored :
    (∀ rule ∈ ({} : RuleTable).inOrder, KeepsCounters rule.replacement) ∧ ({} : State).counters = {} ∧
    (∃ now, Moment.Reaches {} {} (started {} (Site.ofTree quotedItem) {}) now ∧
      (openElements now.frames).map Site.tag = ["li", "ul", "blockquote"] ∧
      now.state.counters = ⟨1, [[' ', ' '], ['>', ' ']], 0, 0⟩) ∧
    ∃ output t, root {} {} (Site.ofTree quotedItem) {} = .ok output t ∧ t.counters = {} := by
  obtain ⟨moments, ending⟩ :=
    counters_mirror_open_elements {} {} (Site.ofTree quotedItem) {} default_table_keeps rfl
  have reaches : Moment.Reaches {} {} (started {} (Site.ofTree quotedItem) {}) ⟨_, _⟩ :=
    reaches_step _ _ _ _ _ _ rfl (reaches_step _ _ _ _ _ _ rfl (reaches_step _ _ _ _ _ _ rfl .refl))
  exact ⟨default_table_keeps, rfl, ⟨_, reaches, rfl, (moments _ reaches).2.1.trans rfl⟩,
    _, _, rfl, ending _ _ rfl⟩

end Render

end Downmark
