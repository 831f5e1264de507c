import Downmark.Render.Frames
/-!
Rendering frame by frame is rendering by recursion.

The open frames are a rendering stopped halfway: every frame still owes the nodes that are pending in
it, and then its own replacement to the frame around it. Main statement: doing the work frame by
frame pays exactly that, with the same output, the same state and the same failure.
-/

set_option autoImplicit false

namespace Downmark.Render

def along (table : RuleTable) (o : Options) (outer : List Open) (isBlock : Bool) :
    Ground → Chars → List Marked → Rendering Chars
  | _, output, [] => pure output
  | ground, output, n :: after => do
      let output ← node table o outer isBlock (ground.pathOf after n) output n
      along table o outer isBlock (ground.past n) output after

-- A frame may only look at the frames around it through what they have written so far, so its own
-- nodes can be rendered before anything is done to the others.
def unwind (table : RuleTable) (o : Options) (frame : Frame) : List Frame → Rendering Chars
  | [] => along table o [] frame.opened.isBlock frame.ground frame.output frame.pending
  | next :: outer => do
      let content ← along table o ((next :: outer).map Frame.opened) frame.opened.isBlock frame.ground
        frame.output frame.pending
      match frame.opener with
      | none => pure content
      | some (site, rule) =>
          let written ← replace rule site o content next.output
          leave o site
          unwind table o { next with output := join next.output written } outer

theorem size_positive (n : Marked) : 0 < n.size := by
  cases n <;> simp only [Node.size] <;> omega

theorem along_among (table : RuleTable) (o : Options) (outer : List Open) (isBlock : Bool) (head : Head)
    (path : List Step) (before : List Marked) (output : Chars) (ks : List Marked) :
    along table o outer isBlock (.among head path before) output ks =
      nodes table o outer isBlock head path before output ks := by
  induction ks generalizing before output with
  | nil => rw [along, nodes]
  | cons n rest ih =>
      rw [along, nodes]
      simp only [Ground.pathOf, Ground.past, ih]

theorem along_alone (table : RuleTable) (o : Options) (outer : List Open) (isBlock : Bool) (path : List Step)
    (output : Chars) (n : Marked) :
    along table o outer isBlock (.alone path) output [n] = node table o outer isBlock path output n := by
  simp only [along, Ground.pathOf, bind_pure]

theorem unwind_pending (table : RuleTable) (o : Options) (opener : Option (Site × Rule)) (ground : Ground)
    (n : Marked) (after : List Marked) (output : Chars) (outer : List Frame) :
    unwind table o ⟨opener, ground, n :: after, output⟩ outer = (do
      let output ← node table o (outer.map Frame.opened) (Frame.opened ⟨opener, ground, [], []⟩).isBlock
        (ground.pathOf after n) output n
      unwind table o ⟨opener, ground.past n, after, output⟩ outer) := by
  cases outer with
  | nil => simp only [unwind, along, List.map_nil, Frame.opened]
  | cons next outer => simp only [unwind, along, bind_assoc, Frame.opened]

theorem resume_unwinds (table : RuleTable) (o : Options) (frame : Frame) (outer : List Frame) :
    resume table o (frame :: outer) = unwind table o frame outer := by
  obtain ⟨opener, ground, pending, output⟩ := frame
  cases pending with
  | nil =>
      cases outer with
      | nil =>
          rw [unwind, along]
          cases opener <;> simp only [resume]
      | cons next outer =>
          cases opener with
          | none => simp only [resume, unwind, along, pure_bind]
          | some opened =>
              obtain ⟨site, rule⟩ := opened
              have closed : ∀ written, resume table o ({ next with output := written } :: outer) =
                  unwind table o { next with output := written } outer :=
                fun written => resume_unwinds table o { next with output := written } outer
              rw [resume, unwind, along, pure_bind]
              simp only [closed]
  | cons n after =>
      have passed : ∀ written, resume table o (⟨opener, ground.past n, after, written⟩ :: outer) =
          unwind table o ⟨opener, ground.past n, after, written⟩ outer :=
        fun written => resume_unwinds table o ⟨opener, ground.past n, after, written⟩ outer
      rw [unwind_pending]
      cases n with
      | text m data =>
          rw [resume, node]
          simp only [bind_assoc, pure_bind, passed]
          rfl
      | comment m data => rw [resume, node, pure_bind, passed]
      | document m ks => rw [resume, node, pure_bind, passed]
      | element m t a ks =>
          have entered : ∀ site rule,
              resume table o (Frame.ofElement site rule m t a ks ::
                ⟨opener, ground.past (.element m t a ks), after, output⟩ :: outer) =
              unwind table o (Frame.ofElement site rule m t a ks)
                (⟨opener, ground.past (.element m t a ks), after, output⟩ :: outer) :=
            fun site rule => resume_unwinds table o (Frame.ofElement site rule m t a ks) _
          rw [resume, node]
          simp only [bind_assoc, entered]
          refine bind_congr fun rule => bind_congr fun _ => ?_
          by_cases asked : rule.rendersChildren
          · simp only [asked, if_true, unwind, Frame.ofElement, along_among, bind_assoc, pure_bind]
            rfl
          · simp only [asked, Bool.false_eq_true, if_false, unwind, Frame.ofElement, along, bind_assoc,
              pure_bind]
termination_by Frame.work (frame :: outer)
decreasing_by
  · simp only [Frame.work, Node.sizes]
    omega
  · have positive := size_positive n
    simp only [Frame.work, Node.sizes]
    omega
  · simp only [Frame.work, Frame.ofElement, Node.sizes, Node.size]
    split
    · omega
    · rw [Node.sizes]
      omega

theorem root_by_frames (table : RuleTable) (o : Options) (site : Site) :
    rootByFrames table o site = root table o site := by
  rw [rootByFrames, resume_unwinds]
  cases same : site.node with
  | document m ks =>
      cases top : ((rootOf site).prepared o).node <;>
        simp only [rootFrame, root, same, top, unwind, along_among, along_alone, Frame.opened]
  | _ => simp only [rootFrame, root, same, unwind, along_alone, Frame.opened]

-- Equal as computations: from every state they end in the same state, with the same output or the
-- same failure. Rules are arbitrary, so nothing is known of what a replacement does to the state.
theorem frames_render_recursively (table : RuleTable) (o : Options) :
    (∀ head path ks, resume table o [{ ground := .among head path [], pending := ks }] =
      nodes table o [] true head path [] [] ks) ∧
    (∀ path n, resume table o [{ ground := .alone path, pending := [n] }] =
      node table o [] true path [] n) ∧
    ∀ site, rootByFrames table o site = root table o site := by
  refine ⟨?_, ?_, root_by_frames table o⟩
  · intro head path ks
    rw [resume_unwinds, unwind]
    exact along_among table o [] true head path [] [] ks
  · intro path n
    rw [resume_unwinds, unwind]
    exact along_alone table o [] true path [] n

end Downmark.Render
