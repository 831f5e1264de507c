import Mathlib.Data.List.Chain
import Downmark.Proofs.OpenElements
import Downmark.Proofs.Places
/-!
Which of its two forms is read of a text. White space is collapsed before anything is rendered, by the names of the
elements around each text; the rendering itself goes by what it has counted. Main statement: the two agree on every
text that is rendered and on every text that is looked ahead to, and what is written of a text is not escaped exactly
below code.
-/

set_option autoImplicit false

namespace Downmark.Render

open Node

def tagsOf (frames : List Frame) : List String := (openElements frames).map Site.tag

/-- The names that no frame has an element for: that of the body of a document, whose children are rendered. -/
def rootNames (site : Site) : List String :=
  match site.node, (rootOf site).node with
  | .document .., .element _ t _ _ => [t]
  | _, _ => []

-- The texts that are still to be rendered, with the elements that are open around them.
def owed (base : List String) : List Frame → List (TextPlace Mark)
  | [] => []
  | frame :: outer => placesAmong (tagsOf (frame :: outer) ++ base) frame.pending ++ owed base outer

theorem owed_pending (base : List String) (opener : Option (Site × Rule)) (ground past : Ground) (n : Marked)
    (after : List Marked) (output written : Chars) (outer : List Frame) :
    owed base (⟨opener, ground, n :: after, output⟩ :: outer) =
      places (tagsOf (⟨opener, past, after, written⟩ :: outer) ++ base) n ++
        owed base (⟨opener, past, after, written⟩ :: outer) :=
  List.append_assoc _ _ _

theorem passed_owed (base : List String) (opener : Option (Site × Rule)) (ground past : Ground) (n : Marked)
    (after : List Marked) (output written : Chars) (outer : List Frame) :
    (owed base (⟨opener, past, after, written⟩ :: outer)).Sublist
      (owed base (⟨opener, ground, n :: after, output⟩ :: outer)) := by
  rw [owed_pending base opener ground past n after output written]
  exact List.sublist_append_right _ _

-- A step renders a text, skips a node, or hands the texts of an element on to the frame that it opens.
theorem advances_owed (table : RuleTable) (o : Options) (frames later : List Frame) (s u : State)
    (advances : Advances table o frames s later u) (base : List String) :
    (owed base later).Sublist (owed base frames) := by
  cases advances with
  | text | skip => exact passed_owed base _ _ _ _ _ _ _ _
  | enter opener ground m t a ks after output outer site rule _ _ here =>
      subst here
      rw [owed_pending base opener ground (ground.past (.element m t a ks)) _ after output output]
      refine List.Sublist.append ?_ (List.Sublist.refl _)
      change (placesAmong _ (if rule.rendersChildren then ks else [])).Sublist (placesAmong _ ks)
      split
      · exact List.Sublist.refl _
      · exact List.nil_sublist _
  | leave => exact List.Sublist.refl _

theorem reaches_owed (table : RuleTable) (o : Options) (start now : Moment)
    (reaches : Moment.Reaches table o start now) (base : List String) :
    (owed base now.frames).Sublist (owed base start.frames) := by
  induction reaches with
  | refl => exact List.Sublist.refl _
  | tail _ next ih => exact (advances_owed table o _ _ _ _ (advance_go table o _ _ _ _ next) base).trans ih

theorem root_of_document (m : Mark) (ks : List Marked) (path : List Step) :
    rootOf ⟨.document m ks, path⟩ = ⟨.document m ks, path⟩ ∨
      ∃ m' a ks' path', rootOf ⟨.document m ks, path⟩ = ⟨.element m' "body" a ks', path'⟩ := by
  change (Site.find? "body" ⟨.document m ks, path⟩).getD _ = _ ∨
    ∃ m' a ks' path', (Site.find? "body" ⟨.document m ks, path⟩).getD _ = _
  cases found : Site.find? "body" ⟨.document m ks, path⟩ with
  | none => exact .inl rfl
  | some body =>
      obtain ⟨n, around⟩ := body
      unfold Site.find? at found
      have named := List.find?_some found
      dsimp only at named
      cases n with
      | text | comment | document => cases named
      | element m' t a ks' =>
          obtain rfl : t = "body" := by simpa [isNamed] using named
          exact .inr ⟨m', a, ks', around, rfl⟩

theorem root_contains (site : Site) (container : ∀ m data, site.node ≠ .text m data) (m : Mark) (data : Chars) :
    (rootOf site).node ≠ .text m data := by
  obtain ⟨n, path⟩ := site
  cases n with
  | text m' data' => exact absurd rfl (container m' data')
  | comment | element => nofun
  | document m' ks =>
      rcases root_of_document m' ks path with top | ⟨mark, a, kids, around, top⟩
      · rw [top]
        nofun
      · rw [top]
        nofun

theorem root_names_body (site : Site) (t : String) (named : t ∈ rootNames site) : t = "body" := by
  obtain ⟨n, path⟩ := site
  cases n with
  | text | comment | element => cases named
  | document m ks =>
      unfold rootNames at named
      rcases root_of_document m ks path with top | ⟨mark, a, kids, around, top⟩
      · rw [top] at named
        cases named
      · rw [top] at named
        exact List.mem_singleton.mp named

theorem prepared_element (o : Options) (m : Mark) (t : String) (a : Attrs) (ks : List Marked) :
    ∃ mark kids, prepare o (.element m t a ks) = .element mark t a kids := by
  obtain ⟨mark, kids, shape, -⟩ :=
    bare_element_shape _ _ _ _ ((prepare_bare o (.element m t a ks)).trans (bare_element m t a ks))
  exact ⟨mark, kids, shape⟩

theorem started_owed (o : Options) (site : Site) (s : State) :
    owed (rootNames site) (started o site s).frames = (prepare o (rootOf site).node).rootPlaces := by
  change owed (rootNames site) [rootFrame site ((rootOf site).prepared o)] = _
  unfold rootFrame rootNames Site.prepared
  obtain ⟨n, path⟩ := site
  cases n with
  | text m data | comment m data => rfl
  | element m t a ks =>
      obtain ⟨mark, kids, shape⟩ := prepared_element o m t a ks
      simp [rootOf, shape, owed, tagsOf, openElements, rootPlaces, places, placesAmong]
  | document m ks =>
      rcases root_of_document m ks path with top | ⟨m', a, ks', around, top⟩
      · obtain ⟨mark, kids, shape, -⟩ :=
          bare_document_shape _ _ ((prepare_bare o (.document m ks)).trans (bare_document m ks))
        simp [top, shape, owed, tagsOf, openElements, rootPlaces]
      · obtain ⟨mark, kids, shape⟩ := prepared_element o m' "body" a ks'
        simp [top, shape, owed, tagsOf, openElements, rootPlaces, places]

theorem reached_place (table : RuleTable) (o : Options) (site : Site) (s : State) (now : Moment)
    (reaches : Moment.Reaches table o (started o site s) now) (place : TextPlace Mark)
    (member : place ∈ owed (rootNames site) now.frames) : place ∈ (prepare o (rootOf site).node).rootPlaces := by
  rw [← started_owed o site s]
  exact (reaches_owed table o _ now reaches _).subset member

theorem chain_listed (ks : List Marked) : Site.chain ks ⊆ ks := by
  induction ks with
  | nil => exact List.Subset.refl []
  | cons n rest ih =>
      rw [Site.chain]
      refine List.cons_subset_cons n ?_
      split
      · exact ih
      · exact List.nil_subset rest

def Lone (behind : List Marked) (ground : Ground) : Prop :=
  ∀ path n, ground = .alone path → (⟨n, path⟩ : Site).following ⊆ behind

-- What follows an element that is open is still pending around it, or stands behind the root.
structure Ahead (behind : List Marked) (frames : List Frame) : Prop where
  siblings : frames.IsChain fun inner next =>
    ∀ site rule, inner.opener = some (site, rule) → ∀ n ∈ site.following, n ∈ next.pending ∨ n ∈ behind
  grounds : ∀ frame ∈ frames, Lone behind frame.ground

theorem following_ahead (behind : List Marked) (ground : Ground) (after : List Marked) (n below : Marked)
    (lone : Lone behind ground) (follows : below ∈ (⟨n, ground.pathOf after n⟩ : Site).following) :
    below ∈ after ∨ below ∈ behind := by
  cases ground with
  | alone path => exact .inr (lone path n rfl follows)
  | among head path before =>
      unfold Ground.pathOf Site.pathTo at follows
      dsimp only at follows
      split at follows
      · exact .inl (chain_listed after follows)
      · cases follows

theorem past_ahead (behind : List Marked) (opener : Option (Site × Rule)) (ground : Ground) (n : Marked)
    (pending after : List Marked) (output written : Chars) (outer : List Frame)
    (ahead : Ahead behind (⟨opener, ground, pending, output⟩ :: outer)) :
    Ahead behind (⟨opener, ground.past n, after, written⟩ :: outer) := by
  obtain ⟨siblings, grounds⟩ := ahead
  rw [List.isChain_cons] at siblings
  rw [List.forall_mem_cons] at grounds
  refine ⟨List.isChain_cons.mpr siblings, List.forall_mem_cons.mpr ⟨?_, grounds.2⟩⟩
  cases ground with
  | alone path => exact grounds.1
  | among head path before => exact fun _ _ => nofun

theorem advances_ahead (table : RuleTable) (o : Options) (frames later : List Frame) (s u : State)
    (advances : Advances table o frames s later u) (behind : List Marked) (ahead : Ahead behind frames) :
    Ahead behind later := by
  cases advances with
  | text | skip => exact past_ahead behind _ _ _ _ _ _ _ _ ahead
  | enter opener ground m t a ks after output outer site rule _ _ here =>
      obtain ⟨siblings, grounds⟩ :=
        past_ahead behind opener ground (.element m t a ks) _ after output output outer ahead
      refine ⟨List.isChain_cons_cons.mpr ⟨?_, siblings⟩, List.forall_mem_cons.mpr ⟨fun _ _ => nofun, grounds⟩⟩
      rintro _ _ ⟨⟩ below follows
      rw [here] at follows
      exact following_ahead behind ground after _ below (ahead.grounds _ List.mem_cons_self) follows
  | leave site rule ground content written next outer =>
      obtain ⟨siblings, grounds⟩ := ahead
      have inner := List.isChain_cons.mp (List.isChain_cons_cons.mp siblings).2
      rw [List.forall_mem_cons, List.forall_mem_cons] at grounds
      exact ⟨List.isChain_cons.mpr inner, List.forall_mem_cons.mpr grounds.2⟩

theorem started_ahead (o : Options) (site : Site) (s : State) : Ahead site.following (started o site s).frames := by
  refine ⟨List.IsChain.singleton _, List.forall_mem_singleton.mpr ?_⟩
  obtain ⟨n, path⟩ := site
  cases n with
  | text m data | comment m data | element m t a ks =>
      rintro _ _ ⟨⟩
      exact List.Subset.refl _
  | document m ks =>
      unfold rootFrame Site.prepared
      rcases root_of_document m ks path with top | ⟨m', a, ks', around, top⟩
      · rw [top]
        exact fun _ _ => nofun
      · obtain ⟨mark, kids, shape⟩ := prepared_element o m' "body" a ks'
        rw [top]
        dsimp only
        rw [shape]
        exact fun _ _ => nofun

theorem reaches_ahead (table : RuleTable) (o : Options) (site : Site) (s : State) (now : Moment)
    (reaches : Moment.Reaches table o (started o site s) now) : Ahead site.following now.frames := by
  induction reaches with
  | refl => exact started_ahead o site s
  | tail _ next ih => exact advances_ahead table o _ _ _ _ (advance_go table o _ _ _ _ next) _ ih

theorem counted_iff (opened : List Site) (name : String) :
    (0 : Int) < opened.countP (fun site => site.tag == name) ↔ name ∈ opened.map Site.tag := by
  simp [List.countP_pos_iff]

theorem in_code_iff (o : Options) (s : State) (opened : List Site) (mirrors : s.counters = mirror o opened) :
    s.inCode = true ↔ "code" ∈ opened.map Site.tag := by
  have depth : s.codeDepth = opened.countP fun site => site.tag == "code" := congrArg Counters.code mirrors
  rw [State.inCode, depth, decide_eq_true_eq, counted_iff]

theorem in_preformatted_iff (o : Options) (s : State) (opened : List Site) (mirrors : s.counters = mirror o opened) :
    s.inPreformatted = true ↔ o.preformattedCode = true ∧ "pre" ∈ opened.map Site.tag := by
  have depth : s.preformattedDepth =
      if o.preformattedCode then ((opened.countP fun site => site.tag == "pre" : Nat) : Int) else 0 :=
    congrArg Counters.preformatted mirrors
  rw [State.inPreformatted, depth, decide_eq_true_eq]
  split
  · rename_i kept
    simp only [kept, true_and, counted_iff]
  · rename_i flowing
    simp [flowing]

/-- A text is read in the form that was chosen for it. -/
structure ReadAsChosen (o : Options) (s : State) (place : TextPlace Mark) : Prop where
  kept : place.IsKept o.preformattedCode →
    place.mark.shown = none ∧ s.textOf o place.mark place.data = place.data
  collapsed : ¬ place.IsKept o.preformattedCode →
    ∃ text, place.mark.shown = some text ∧ s.textOf o place.mark place.data = text
  -- So it is never squeezed while the rendering goes on.
  chosen : place.mark.shown.isSome = true ∨ (o.preformattedCode && (s.inPreformatted || s.inCode)) = true

theorem place_read (o : Options) (s : State) (opened : List Site) (mirrors : s.counters = mirror o opened)
    (place : TextPlace Mark) (settled : place.Settled o.preformattedCode)
    (seen : ∀ t ∈ place.above, t ≠ "body" → t ∈ opened.map Site.tag) : ReadAsChosen o s place := by
  have counted (kept : place.IsKept o.preformattedCode) :
      (o.preformattedCode && (s.inPreformatted || s.inCode)) = true := by
    obtain ⟨t, above, kept⟩ := kept
    simp only [Whitespace.isKept, Bool.and_eq_true, Bool.or_eq_true, beq_iff_eq] at kept
    rw [Bool.and_eq_true, Bool.or_eq_true, in_preformatted_iff o s opened mirrors, in_code_iff o s opened mirrors]
    obtain ⟨preserving, rfl | rfl⟩ := kept
    · exact ⟨preserving, .inl ⟨preserving, seen "pre" above (by decide)⟩⟩
    · exact ⟨preserving, .inr (seen "code" above (by decide))⟩
  refine ⟨fun kept => ?_, fun loose => ?_, ?_⟩
  · have unshown := settled.mpr kept
    rw [State.textOf, unshown]
    exact ⟨rfl, if_pos (counted kept)⟩
  · obtain ⟨text, shown⟩ := Option.ne_none_iff_exists'.mp (mt settled.mp loose)
    rw [State.textOf, shown]
    exact ⟨text, rfl, rfl⟩
  · cases shown : place.mark.shown with
    | some text => exact .inl rfl
    | none => exact .inr (counted (settled.mp shown))

/-- How a text is written below elements of some names: as it is in code. -/
def escapedBelow (o : Options) (above : List String) (opened : List Open) (text : Chars) : Chars :=
  if "code" ∈ above then text
  else
    let ahead := if text.head? == some '.' then lineSoFar opened else []
    if o.preformattedCode = true ∧ "pre" ∈ above then Escape.preformatted text ahead else Escape.markdown text ahead

theorem text_output_below (o : Options) (s : State) (opened : List Site) (mirrors : s.counters = mirror o opened)
    (base : List String) (body : ∀ t ∈ base, t = "body") (around : List Open) (m : Mark) (data : Chars) :
    textOutput s o around m data = escapedBelow o (opened.map Site.tag ++ base) around (s.textOf o m data) := by
  have named (name : String) (other : name ≠ "body") :
      name ∈ opened.map Site.tag ++ base ↔ name ∈ opened.map Site.tag :=
    List.mem_append.trans (or_iff_left fun member => other (body name member))
  unfold textOutput escapedBelow
  simp only [named "code" (by decide), named "pre" (by decide), ← in_code_iff o s opened mirrors,
    ← in_preformatted_iff o s opened mirrors]

theorem reached_counters (table : RuleTable) (keeps : ∀ rule ∈ table.inOrder, KeepsCounters rule.replacement)
    (o : Options) (site : Site) (s : State) (fresh : s.counters = {}) (now : Moment)
    (reaches : Moment.Reaches table o (started o site s) now) :
    now.state.counters = mirror o (openElements now.frames) := by
  obtain ⟨opened, mirrored⟩ := reaches_mirrored table keeps o site s fresh now reaches
  rw [open_elements_eq now.frames opened mirrored.openers, mirrored.counters]

/-- The place of a text that is pending in the innermost of some frames. -/
def placeIn (site : Site) (frames : List Frame) (m : Mark) (data : Chars) : TextPlace Mark :=
  ⟨tagsOf frames ++ rootNames site, m, data⟩

theorem text_placed (above : List String) (ks : List Marked) (m : Mark) (data : Chars)
    (listed : .text m data ∈ ks) : ⟨above, m, data⟩ ∈ placesAmong above ks := by
  induction ks with
  | nil => cases listed
  | cons n rest ih =>
      rcases List.mem_cons.mp listed with rfl | later
      · exact List.mem_cons_self
      · exact List.mem_append_right _ (ih later)

theorem pending_owed (site : Site) (frame : Frame) (outer : List Frame) (m : Mark) (data : Chars)
    (pending : .text m data ∈ frame.pending) :
    placeIn site (frame :: outer) m data ∈ owed (rootNames site) (frame :: outer) :=
  List.mem_append_left _ (text_placed _ frame.pending m data pending)

section

variable (table : RuleTable) (keeps : ∀ rule ∈ table.inOrder, KeepsCounters rule.replacement) (o : Options)
  (site : Site) (s : State) (fresh : s.counters = {}) (container : ∀ m data, site.node ≠ .text m data)
  (unread : ∀ place ∈ (rootOf site).node.rootPlaces, place.Unread) (now : Moment)
  (reaches : Moment.Reaches table o (started o site s) now)

include keeps fresh container unread reaches

theorem owed_read (place : TextPlace Mark) (member : place ∈ owed (rootNames site) now.frames)
    (seen : ∀ t ∈ place.above, t ∈ tagsOf now.frames ++ rootNames site) :
    place ∈ (prepare o (rootOf site).node).rootPlaces ∧ ReadAsChosen o now.state place := by
  have inside := reached_place table o site s now reaches place member
  refine ⟨inside, place_read o now.state _ (reached_counters table keeps o site s fresh now reaches) place
    (prepare_settled o _ (root_contains site container) unread place inside) fun t above other => ?_⟩
  exact (List.mem_append.mp (seen t above)).resolve_right fun named => other (root_names_body site t named)

end

-- A text as a root has nothing noted on it, and a text behind the root was not there when the tree was prepared.
theorem texts_read_as_chosen (table : RuleTable) (keeps : ∀ rule ∈ table.inOrder, KeepsCounters rule.replacement)
    (o : Options) (site : Site) (s : State) (fresh : s.counters = {})
    (container : ∀ m data, site.node ≠ .text m data)
    (unread : ∀ place ∈ (rootOf site).node.rootPlaces, place.Unread) :
    (prepare o (rootOf site).node).rootPlaces.map (TextPlace.mapMark fun _ => ()) =
      (rootOf site).node.rootPlaces.map (TextPlace.mapMark fun _ => ()) ∧
    ∀ now, Moment.Reaches table o (started o site s) now →
      now.rest table o = root table o site s ∧
      (∀ opener ground m data after output outer,
        now.frames = ⟨opener, ground, .text m data :: after, output⟩ :: outer →
        placeIn site now.frames m data ∈ (prepare o (rootOf site).node).rootPlaces ∧
        ReadAsChosen o now.state (placeIn site now.frames m data) ∧
        advance table o now.frames now.state = .ok (.go (⟨opener, ground.past (.text m data), after,
          join output (escapedBelow o (placeIn site now.frames m data).above (now.frames.map Frame.opened)
            (now.state.textOf o m data))⟩ :: outer)) now.state) ∧
      ∀ closing rule ground content next outer,
        now.frames = ⟨some (closing, rule), ground, [], content⟩ :: next :: outer →
        ∀ m data, .text m data ∈ closing.following → .text m data ∈ site.following ∨
          placeIn site (next :: outer) m data ∈ (prepare o (rootOf site).node).rootPlaces ∧
          ReadAsChosen o now.state (placeIn site (next :: outer) m data) := by
  refine ⟨prepare_places o _, fun now reaches => ⟨?_, ?_, ?_⟩⟩
  · exact (reaches_rest table o _ now reaches).trans (started_rest table o site s)
  · intro opener ground m data after output outer frames
    have member : placeIn site now.frames m data ∈ owed (rootNames site) now.frames := by
      rw [frames]
      exact pending_owed site _ outer m data List.mem_cons_self
    obtain ⟨inside, read⟩ := owed_read table keeps o site s fresh container unread now reaches _ member fun _ => id
    refine ⟨inside, read, ?_⟩
    have written := text_output_below o now.state _ (reached_counters table keeps o site s fresh now reaches)
      (rootNames site) (root_names_body site) (now.frames.map Frame.opened) m data
    rw [placeIn, tagsOf, ← written, frames]
    rfl
  · intro closing rule ground content next outer frames m data follows
    have ahead := (reaches_ahead table o site s now reaches).siblings
    rw [frames, List.isChain_cons_cons] at ahead
    refine (ahead.1 closing rule rfl _ follows).symm.imp id fun pending => ?_
    refine owed_read table keeps o site s fresh container unread now reaches _ ?_ fun t above => ?_
    · rw [frames]
      exact List.mem_append_right _ (pending_owed site next outer m data pending)
    · rw [frames]
      exact List.mem_cons_of_mem _ above

def mixedBody : Tree := .element () "body" []
  [.text () ['a', ' ', ' ', '*'], .element () "code" [] [.text () ['b', ' ', ' ', '*']]]

def codeInBody : Site := Site.ofTree (.document () [mixedBody] : Tree)

def keeping : Options := { preformattedCode := true }

theorem code_in_body_read :
    (∀ rule ∈ ({} : RuleTable).inOrder, KeepsCounters rule.replacement) ∧ ({} : State).counters = {} ∧
    (∀ m data, codeInBody.node ≠ .text m data) ∧
    (∀ place ∈ (rootOf codeInBody).node.rootPlaces, place.Unread) ∧
    (∃ m, ReadAsChosen keeping {} ⟨["body"], m, ['a', ' ', ' ', '*']⟩ ∧ m.shown = some ['a', ' ', '*']) ∧
    ∃ now, Moment.Reaches {} keeping (started keeping codeInBody {}) now ∧
      ReadAsChosen keeping now.state ⟨["code", "body"], {}, ['b', ' ', ' ', '*']⟩ := by
  have container : ∀ m data, codeInBody.node ≠ .text m data := fun _ _ => nofun
  have unread : ∀ place ∈ (rootOf codeInBody).node.rootPlaces, place.Unread := fresh_unread mixedBody {} rfl
  obtain ⟨-, moments⟩ := texts_read_as_chosen {} default_table_keeps keeping codeInBody {} rfl container unread
  have reaches : Moment.Reaches {} keeping (started keeping codeInBody {}) ⟨_, _⟩ :=
    reaches_step _ _ _ _ _ _ rfl (reaches_step _ _ _ _ _ _ rfl .refl)
  have outside := ((moments _ .refl).2.1 _ _ _ _ _ _ _ rfl).2.1
  have inside := ((moments _ reaches).2.1 _ _ _ _ _ _ _ rfl).2.1
  exact ⟨default_table_keeps, rfl, container, unread, ⟨_, outside, rfl⟩, _, reaches, inside⟩

end Downmark.Render
