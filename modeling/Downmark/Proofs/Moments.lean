import Mathlib.Logic.Relation
import Downmark.Proofs.FrameWalk
/-!
The moments of a rendering: what is open, and the state. Frame by frame, a rendering goes from one
moment to the next. Main statements: what is left to do at a moment is the rest of the rendering, and
a rendering that ends without a failure has come to a last moment.
-/

set_option autoImplicit false

namespace Downmark.Render

inductive Turn where
  | go (frames : List Frame)
  | stop (output : Chars)

-- The first step of the work that is left in some frames.
def advance (table : RuleTable) (o : Options) : List Frame → Rendering Turn
  | [] => pure (.stop [])
  | ⟨opener, ground, .text m data :: after, output⟩ :: outer => do
      let s ← get
      let frame : Frame := ⟨opener, ground, .text m data :: after, output⟩
      let text := textOutput s o ((frame :: outer).map Frame.opened) m data
      pure (.go (⟨opener, ground.past (.text m data), after, join output text⟩ :: outer))
  | ⟨opener, ground, .comment m data :: after, output⟩ :: outer =>
      pure (.go (⟨opener, ground.past (.comment m data), after, output⟩ :: outer))
  | ⟨opener, ground, .document m ks :: after, output⟩ :: outer =>
      pure (.go (⟨opener, ground.past (.document m ks), after, output⟩ :: outer))
  | ⟨opener, ground, .element m t a ks :: after, output⟩ :: outer => do
      let n : Marked := .element m t a ks
      let site : Site := ⟨n, ground.pathOf after n⟩
      let rule ← ruleFor table o site
      enter o site
      pure (.go (Frame.ofElement site rule m t a ks :: ⟨opener, ground.past n, after, output⟩ :: outer))
  | ⟨some (site, rule), _, [], content⟩ :: ⟨opener, ground, pending, output⟩ :: outer => do
      let written ← replace rule site o content output
      leave o site
      pure (.go (⟨opener, ground, pending, join output written⟩ :: outer))
  | ⟨_, _, [], output⟩ :: _ => pure (.stop output)

def proceed (table : RuleTable) (o : Options) : Turn → Rendering Chars
  | .go frames => resume table o frames
  | .stop output => pure output

theorem resume_advances (table : RuleTable) (o : Options) (frames : List Frame) :
    resume table o frames = advance table o frames >>= proceed table o := by
  cases frames with
  | nil => rw [resume, advance, pure_bind, proceed]
  | cons frame outer =>
      obtain ⟨opener, ground, pending, output⟩ := frame
      cases pending with
      | nil =>
          cases outer with
          | nil => cases opener <;> rw [resume, advance, pure_bind, proceed] <;> simp
          | cons next outer =>
              cases opener with
              | none => rw [resume, advance, pure_bind, proceed] <;> simp
              | some opened =>
                  obtain ⟨site, rule⟩ := opened
                  rw [resume, advance]
                  simp only [bind_assoc, pure_bind, proceed]
      | cons n after =>
          cases n <;> rw [resume, advance] <;> simp only [bind_assoc, pure_bind, proceed]

theorem bind_ok_iff {α β : Type} (first : Rendering α) (next : α → Rendering β) (s u : State) (b : β) :
    (first >>= next) s = .ok b u ↔ ∃ a t, first s = .ok a t ∧ next a t = .ok b u := by
  change EStateM.bind first next s = .ok b u ↔ _
  unfold EStateM.bind
  cases first s with
  | ok a t =>
      constructor
      · exact fun rest => ⟨a, t, rfl, rest⟩
      · rintro ⟨_, _, ⟨⟩, rest⟩
        exact rest
  | error failure t => simp

theorem rule_for_ok (table : RuleTable) (o : Options) (site : Site) (s t : State) (rule : Rule)
    (found : ruleFor table o site s = .ok rule t) :
    table.find site o site.node.mark.blank = .ok rule ∧ t = s := by
  unfold ruleFor at found
  cases result : table.find site o site.node.mark.blank with
  | ok ruled =>
      rw [result] at found
      cases found
      exact ⟨rfl, rfl⟩
  | error failure =>
      rw [result] at found
      cases found

-- All that one step can do.
inductive Advances (table : RuleTable) (o : Options) : List Frame → State → List Frame → State → Prop where
  | text (opener : Option (Site × Rule)) (ground : Ground) (m : Mark) (data : Chars) (after : List Marked)
      (output written : Chars) (outer : List Frame) (s : State)
      (said : written = textOutput s o
        ((⟨opener, ground, .text m data :: after, output⟩ :: outer : List Frame).map Frame.opened) m data) :
      Advances table o (⟨opener, ground, .text m data :: after, output⟩ :: outer) s
        (⟨opener, ground.past (.text m data), after, join output written⟩ :: outer) s
  | skip (opener : Option (Site × Rule)) (ground : Ground) (n : Marked) (after : List Marked)
      (output : Chars) (outer : List Frame) (s : State) :
      Advances table o (⟨opener, ground, n :: after, output⟩ :: outer) s
        (⟨opener, ground.past n, after, output⟩ :: outer) s
  | enter (opener : Option (Site × Rule)) (ground : Ground) (m : Mark) (t : String) (a : Attrs)
      (ks after : List Marked) (output : Chars) (outer : List Frame) (site : Site) (rule : Rule) (s u : State)
      (here : site = ⟨.element m t a ks, ground.pathOf after (.element m t a ks)⟩)
      (found : table.find site o site.node.mark.blank = .ok rule) (entered : enter o site s = .ok () u) :
      Advances table o (⟨opener, ground, .element m t a ks :: after, output⟩ :: outer) s
        (Frame.ofElement site rule m t a ks ::
          ⟨opener, ground.past (.element m t a ks), after, output⟩ :: outer) u
  | leave (site : Site) (rule : Rule) (ground : Ground) (content written : Chars) (next : Frame)
      (outer : List Frame) (s t u : State)
      (replaced : replace rule site o content next.output s = .ok written t) (left : leave o site t = .ok () u) :
      Advances table o (⟨some (site, rule), ground, [], content⟩ :: next :: outer) s
        ({ next with output := join next.output written } :: outer) u

theorem advance_go (table : RuleTable) (o : Options) (frames later : List Frame) (s u : State)
    (step : advance table o frames s = .ok (.go later) u) : Advances table o frames s later u := by
  cases frames with
  | nil => cases step
  | cons frame outer =>
      obtain ⟨opener, ground, pending, output⟩ := frame
      cases pending with
      | nil =>
          cases outer with
          | nil => cases opener <;> cases step
          | cons next outer =>
              cases opener with
              | none => cases step
              | some opened =>
                  obtain ⟨site, rule⟩ := opened
                  obtain ⟨written, t, replaced, rest⟩ := (bind_ok_iff _ _ _ _ _).mp step
                  obtain ⟨⟨⟩, v, left, last⟩ := (bind_ok_iff _ _ _ _ _).mp rest
                  cases last
                  exact .leave site rule ground output written next outer s t _ replaced left
      | cons n after =>
          cases n with
          | text m data =>
              cases step
              exact .text opener ground m data after output _ outer _ rfl
          | comment m data =>
              cases step
              exact .skip opener ground _ after output outer _
          | document m ks =>
              cases step
              exact .skip opener ground _ after output outer _
          | element m t a ks =>
              obtain ⟨rule, v, ruled, rest⟩ := (bind_ok_iff _ _ _ _ _).mp step
              obtain ⟨⟨⟩, w, entered, last⟩ := (bind_ok_iff _ _ _ _ _).mp rest
              obtain ⟨found, rfl⟩ := rule_for_ok table o _ s v rule ruled
              cases last
              exact .enter opener ground m t a ks after output outer _ rule _ _ rfl found entered

theorem advance_stop (table : RuleTable) (o : Options) (frames : List Frame) (output : Chars) (s u : State)
    (step : advance table o frames s = .ok (.stop output) u) :
    u = s ∧ (frames = [] ∨ ∃ opener ground outer, frames = ⟨opener, ground, [], output⟩ :: outer ∧
      (opener = none ∨ outer = [])) := by
  cases frames with
  | nil =>
      cases step
      exact ⟨rfl, .inl rfl⟩
  | cons frame outer =>
      obtain ⟨opener, ground, pending, written⟩ := frame
      cases pending with
      | nil =>
          cases outer with
          | nil =>
              cases opener <;> cases step <;> exact ⟨rfl, .inr ⟨_, ground, [], rfl, .inr rfl⟩⟩
          | cons next outer =>
              cases opener with
              | none =>
                  cases step
                  exact ⟨rfl, .inr ⟨_, ground, _, rfl, .inl rfl⟩⟩
              | some opened =>
                  obtain ⟨site, rule⟩ := opened
                  obtain ⟨_, _, _, rest⟩ := (bind_ok_iff _ _ _ _ _).mp step
                  obtain ⟨_, _, _, last⟩ := (bind_ok_iff _ _ _ _ _).mp rest
                  cases last
      | cons n after =>
          cases n with
          | text | comment | document => cases step
          | element m t a ks =>
              obtain ⟨_, _, _, rest⟩ := (bind_ok_iff _ _ _ _ _).mp step
              obtain ⟨_, _, _, last⟩ := (bind_ok_iff _ _ _ _ _).mp rest
              cases last

theorem advances_work (table : RuleTable) (o : Options) (frames later : List Frame) (s u : State)
    (advances : Advances table o frames s later u) : Frame.work later < Frame.work frames := by
  cases advances with
  | text =>
      simp only [Frame.work, Node.sizes, Node.size]
      omega
  | skip opener ground n =>
      have positive := size_positive n
      simp only [Frame.work, Node.sizes]
      omega
  | enter =>
      simp only [Frame.work, Frame.ofElement, Node.sizes, Node.size]
      split
      · omega
      · rw [Node.sizes]
        omega
  | leave =>
      simp only [Frame.work, Node.sizes]
      omega

structure Moment where
  frames : List Frame
  state : State

def Moment.Next (table : RuleTable) (o : Options) (now later : Moment) : Prop :=
  advance table o now.frames now.state = .ok (.go later.frames) later.state

def Moment.Reaches (table : RuleTable) (o : Options) : Moment → Moment → Prop :=
  Relation.ReflTransGen (Moment.Next table o)

def Moment.rest (table : RuleTable) (o : Options) (now : Moment) : EStateM.Result Failure State Chars :=
  resume table o now.frames now.state

theorem rest_advances (table : RuleTable) (o : Options) (now : Moment) :
    now.rest table o = (advance table o now.frames >>= proceed table o) now.state := by
  rw [Moment.rest, resume_advances]

theorem next_rest (table : RuleTable) (o : Options) (now later : Moment)
    (next : Moment.Next table o now later) : now.rest table o = later.rest table o := by
  rw [rest_advances]
  change EStateM.bind _ _ _ = _
  rw [EStateM.bind, show advance table o now.frames now.state = _ from next]
  rfl

theorem reaches_rest (table : RuleTable) (o : Options) (start now : Moment)
    (reaches : Moment.Reaches table o start now) : now.rest table o = start.rest table o := by
  induction reaches with
  | refl => rfl
  | tail _ next ih => rw [← next_rest table o _ _ next, ih]

theorem reaches_step (table : RuleTable) (o : Options) (now last : Moment) (later : List Frame) (u : State)
    (step : advance table o now.frames now.state = .ok (.go later) u)
    (further : Moment.Reaches table o ⟨later, u⟩ last) : Moment.Reaches table o now last := by
  have next : Moment.Next table o now ⟨later, u⟩ := step
  exact .head next further

theorem rest_ends (table : RuleTable) (o : Options) (now : Moment) (output : Chars) (t : State)
    (ended : now.rest table o = .ok output t) :
    ∃ last, Moment.Reaches table o now last ∧
      advance table o last.frames last.state = .ok (.stop output) t := by
  rw [rest_advances] at ended
  obtain ⟨turn, u, step, rest⟩ := (bind_ok_iff _ _ _ _ _).mp ended
  cases turn with
  | stop written =>
      cases rest
      exact ⟨now, .refl, step⟩
  | go later =>
      have smaller := advances_work table o _ _ _ _ (advance_go table o _ later _ u step)
      obtain ⟨last, reaches, stopped⟩ := rest_ends table o ⟨later, u⟩ output t rest
      exact ⟨last, reaches_step table o now last later u step reaches, stopped⟩
termination_by Frame.work now.frames

end Downmark.Render
