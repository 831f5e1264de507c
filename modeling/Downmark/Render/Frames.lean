import Downmark.Render.Walk
/-!
Rendering with the open elements held in a list, so that no step goes down into the tree.

A frame holds the nodes of one container that are still to be rendered, and what is already written
of it. The step that is due is told by the innermost frame: a node is rendered or opens a frame of
its own, and a frame without nodes is closed and written onto the one around it.
-/

set_option autoImplicit false

namespace Downmark.Render

/-- Where the nodes of a frame stand. -/
inductive Ground where
  /-- The root of a rendering, with its own surroundings. -/
  | alone (path : List Step)
  /-- Children of a container, with the children before them, nearest first. -/
  | among (head : Head) (path : List Step) (before : List Marked)

namespace Ground

/-- The surroundings of a node, given those that come after it. -/
def pathOf (ground : Ground) (after : List Marked) (n : Marked) : List Step :=
  match ground with
  | .alone path => path
  | .among head path before => Site.pathTo head path before after n

/-- Where the nodes after one stand. -/
def past (ground : Ground) (n : Marked) : Ground :=
  match ground with
  | .alone path => .alone path
  | .among head path before => .among head path (n :: before)

end Ground

/-- A container that is being rendered. -/
structure Frame where
  /-- The element that was opened, with its rule. The outermost frame has none. -/
  opener : Option (Site × Rule) := none
  ground : Ground
  /-- The nodes that are still to be rendered. -/
  pending : List Marked
  output : Chars := []

namespace Frame

/-- The output so far, and whether lines end at the border of the container. -/
def opened (frame : Frame) : Open :=
  { output := frame.output
    isBlock := match frame.opener with
      | none => true
      | some (site, _) => site.node.isBlock }

/-- The frame of an element whose rule has been found. -/
def ofElement (site : Site) (rule : Rule) (m : Mark) (t : String) (a : Attrs) (ks : List Marked) :
    Frame :=
  { opener := some (site, rule), ground := .among (.element m t a) site.path []
    pending := if rule.rendersChildren then ks else [] }

/-- The work that is left in some frames. -/
def work : List Frame → Nat
  | [] => 0
  | frame :: outer => 2 * Node.sizes frame.pending + 1 + work outer

end Frame

/-- Does all the work that is left in some frames, the innermost coming first. -/
def resume (table : RuleTable) (o : Options) : List Frame → Rendering Chars
  | [] => pure []
  | ⟨opener, ground, .text m data :: after, output⟩ :: outer => do
    let s ← get
    let frame : Frame := ⟨opener, ground, .text m data :: after, output⟩
    let text := textOutput s o ((frame :: outer).map Frame.opened) m data
    resume table o (⟨opener, ground.past (.text m data), after, join output text⟩ :: outer)
  | ⟨opener, ground, .comment m data :: after, output⟩ :: outer =>
    resume table o (⟨opener, ground.past (.comment m data), after, output⟩ :: outer)
  | ⟨opener, ground, .document m ks :: after, output⟩ :: outer =>
    resume table o (⟨opener, ground.past (.document m ks), after, output⟩ :: outer)
  | ⟨opener, ground, .element m t a ks :: after, output⟩ :: outer => do
    let n : Marked := .element m t a ks
    let site : Site := ⟨n, ground.pathOf after n⟩
    let rule ← ruleFor table o site
    enter o site
    resume table o
      (Frame.ofElement site rule m t a ks :: ⟨opener, ground.past n, after, output⟩ :: outer)
  | ⟨some (site, rule), _, [], content⟩ :: ⟨opener, ground, pending, output⟩ :: outer => do
    let written ← replace rule site o content output
    leave o site
    resume table o (⟨opener, ground, pending, join output written⟩ :: outer)
  | ⟨_, _, [], output⟩ :: _ => pure output
termination_by frames => Frame.work frames
decreasing_by
  all_goals simp only [Frame.work, Frame.ofElement, Node.sizes, Node.size]
  all_goals try split
  all_goals try simp only [Node.sizes]
  all_goals omega

/-- The outermost frame of a rendering: the children of a document or of its body, or the root
itself. -/
def rootFrame (site top : Site) : Frame :=
  match site.node, top.node with
  | .document .., .element m t a ks =>
    { ground := .among (.element m t a) top.path [], pending := ks }
  | .document .., .document m ks => { ground := .among (.document m) top.path [], pending := ks }
  | _, n => { ground := .alone top.path, pending := [n] }

/-- Renders a root frame by frame. -/
def rootByFrames (table : RuleTable) (o : Options) (site : Site) : Rendering Chars :=
  resume table o [rootFrame site ((rootOf site).prepared o)]

end Downmark.Render
