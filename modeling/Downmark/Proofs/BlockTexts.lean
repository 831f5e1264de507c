import Downmark.Proofs.Marks
import Downmark.Proofs.NeatOutput
import Downmark.Proofs.PreparedBlocks
import Downmark.Proofs.Surroundings
/-!
The blocks of a container, each with a text of its own. A block writes the same wherever it stands, in a
state or in another. Main statements: rendering some blocks is joining their texts in order, and all blocks
but list items keep a blank line to what is around them.
-/

set_option autoImplicit false

namespace Downmark

namespace Render

def unmark (n : Tree) : Marked := n.mapMarks fun _ => {}

theorem unmark_element (t : String) (a : Attrs) (ks : List Tree) :
    unmark (.element () t a ks) = .element {} t a (ks.map unmark) := by
  rw [unmark, Node.mapMarks, Node.map_all_marks_map]
  rfl

def Bodiless (ks : List Tree) : Prop := ∀ n ∈ Node.forest ks, n.isNamed "body" = false

theorem bodiless_unfound (ks : List Tree) (bodiless : Bodiless ks) :
    (Site.ofTree (.document () ks)).find? "body" = none := by
  unfold Site.find?
  rw [List.find?_eq_none]
  intro site member
  have listed : site.node ∈ Node.forest (Node.mapAllMarks (fun _ => ({} : Mark)) ks) := by
    rw [← Site.among_nodes (.document {}) [] []]
    exact List.mem_map_of_mem member
  rw [Node.forest_marks] at listed
  obtain ⟨n, below, same⟩ := List.mem_map.mp listed
  rw [← same, Node.map_marks_named, bodiless n below]
  exact Bool.false_ne_true

theorem document_root (ks : List Tree) (bodiless : Bodiless ks) :
    rootOf (Site.ofTree (.document () ks)) = Site.ofTree (.document () ks) := by
  unfold rootOf
  rw [bodiless_unfound ks bodiless]
  rfl

-- What a tree is converted to, or the failure that comes up first.
def conversion (o : Options) (tree : Tree) : Except Failure Chars := answer (site {} o (Site.ofTree tree)) {}

def trimmed (output : Chars) : Chars := Text.trimEnd Text.isBlank (Text.trimStart isLineStart output)

theorem finish_trims (output : Chars) (s : State) (unused : s.references = {}) :
    finish output s = .ok (trimmed output) s := by
  have empty : s.references.isEmpty = true := by rw [unused]; rfl
  change (if s.references.isEmpty then pure (trimmed output) else _ : Rendering Chars) s = _
  rw [if_pos empty]
  rfl

-- How a conversion is begun.
def logged (tree : Tree) : State := { log := [.renderStarted (Site.ofTree tree).node.kind ({} : RuleTable).count] }

theorem conversion_ok (o : Options) (tree : Tree) (output : Chars)
    (worked : root {} o (Site.ofTree tree) (logged tree) = .ok output (logged tree)) :
    conversion o tree = .ok (trimmed output) := by
  have noted : site {} o (Site.ofTree tree) {} = (root {} o (Site.ofTree tree) >>= finish) (logged tree) := rfl
  unfold conversion answer
  rw [noted, bind_of_ok _ _ _ _ output worked, finish_trims output (logged tree) rfl]

theorem conversion_error (o : Options) (tree : Tree) (failure : Failure) (t : State)
    (failed : root {} o (Site.ofTree tree) (logged tree) = .error failure t) : conversion o tree = .error failure := by
  have noted : site {} o (Site.ofTree tree) {} = (root {} o (Site.ofTree tree) >>= finish) (logged tree) := rfl
  unfold conversion answer
  rw [noted, bind_of_error _ _ _ t failure failed]

theorem conversion_eq (o : Options) (tree : Tree) (steady : Steady (root {} o (Site.ofTree tree))) :
    conversion o tree = (answer (root {} o (Site.ofTree tree)) {}).map trimmed := by
  unfold answer
  rcases steady {} (logged tree) ⟨rfl, rfl⟩ with ⟨output, here, there⟩ | ⟨failure, t, u, here, there⟩
  · rw [conversion_ok o tree output there, here]
    rfl
  · rw [conversion_error o tree failure u there, here]
    rfl

section

variable {α β : Type}

theorem answer_bind (first : Rendering α) (next : α → Rendering β) (steady : Steady first) (s : State) :
    answer (first >>= next) s = answer first s >>= fun a => answer (next a) s := by
  unfold answer
  rcases steady s s ⟨rfl, rfl⟩ with ⟨a, here, -⟩ | ⟨failure, t, -, here, -⟩
  · rw [bind_of_ok first next s s a here, here]
    rfl
  · rw [bind_of_error first next s t failure here, here]
    rfl

theorem answer_alike (work : Rendering α) (steady : Steady work) (s s' : State) (alike : Alike s s') :
    answer work s = answer work s' := by
  unfold answer
  rcases steady s s' alike with ⟨a, here, there⟩ | ⟨failure, t, u, here, there⟩
  · rw [here, there]
  · rw [here, there]

theorem steady_map (f : α → Rendering β) (xs : List α) (each : ∀ x ∈ xs, Steady (f x)) : Steady (xs.mapM f) := by
  induction xs with
  | nil => exact steady_pure []
  | cons x rest ih =>
      rw [List.forall_mem_cons] at each
      rw [List.mapM_cons]
      exact steady_bind _ _ each.1 fun y => steady_bind _ _ (ih each.2) fun ys => steady_pure _

theorem answer_map (f : α → Rendering β) (xs : List α) (each : ∀ x ∈ xs, Steady (f x)) (s : State) :
    answer (xs.mapM f) s = xs.mapM fun x => answer (f x) s := by
  induction xs with
  | nil => rfl
  | cons x rest ih =>
      rw [List.forall_mem_cons] at each
      rw [List.mapM_cons, List.mapM_cons, answer_bind _ _ each.1]
      refine bind_congr fun y => ?_
      rw [answer_bind _ _ (steady_map f rest each.2), ih each.2]
      rfl

end

-- What the rule of a block writes for it.
def blockText (o : Options) : Marked → Rendering Chars
  | .element m t a ks => elementText {} o [] true [] [] m t a ks
  | _ => pure []

theorem block_text_steady (o : Options) (inlined : o.linkStyle = .inlined) (n : Marked) : Steady (blockText o n) := by
  have table := inlined_table_steady o inlined
  cases n with
  | element m t a ks =>
      exact element_steady {} o table _ _ _ _ m t a ks fun outer isBlock head =>
        nodes_steady {} o table outer isBlock head [] [] [] ks
  | text | comment | document => exact steady_pure []

-- Only a list looks at the container that it stands in.
structure Standing (head : Head) (n : Marked) : Prop where
  block : n.isBlock = true
  item : n.tag ≠ "li"
  outside : isListTag n.tag = true → head.tag ≠ "li"

theorem blocks_joined (o : Options) (flowing : o.preformattedCode = false) (outer : List Open) (isBlock : Bool)
    (head : Head) (path : List Step) (before : List Marked) (output : Chars) (ks : List Marked)
    (standing : ∀ n ∈ ks, Standing head n) :
    nodes {} o outer isBlock head path before output ks =
      (do
        let texts ← ks.mapM (blockText o)
        pure (texts.foldl join output)) := by
  induction ks generalizing before output with
  | nil =>
      rw [nodes, List.mapM_nil, pure_bind]
      rfl
  | cons n rest ih =>
      rw [List.forall_mem_cons] at standing
      obtain ⟨⟨block, item, outside⟩, others⟩ := standing
      cases n with
      | text | comment | document => exact absurd (show isBlockTag "" = true from block) (by decide)
      | element m t a ks =>
          have home (list : isListTag t = true) :
              OutsideItem (Site.pathTo head path before rest (.element m t a ks)) ∧ OutsideItem [] := by
            refine ⟨?_, by simp [OutsideItem]⟩
            unfold Site.pathTo
            split
            · simpa [OutsideItem] using outside list
            · simp [OutsideItem]
          rw [nodes, node_element, block_anywhere o m t a ks _ [] block flowing item home outer [] isBlock true output []]
          simp only [List.mapM_cons, bind_assoc, pure_bind, List.foldl_cons, ih _ _ others]
          rfl

-- Blocks that may stand side by side: all but items and the parts of tables.
def standingTags : List String :=
  ["p", "h1", "h2", "h3", "h4", "h5", "h6", "blockquote", "ul", "ol", "pre", "hr", "div"]

theorem standing_block (t : String) (listed : t ∈ standingTags) : isBlockTag t = true ∧ t ≠ "li" := by
  have all : ∀ name ∈ standingTags, isBlockTag name = true ∧ name ≠ "li" := by decide
  exact all t listed

theorem apart_starts (s : Chars) : StartsApart (Block.apart s) := ⟨s ++ ['\n', '\n'], rfl⟩

theorem code_apart (content : Chars) (site : Site) (o : Options) (s t : State) (written : Chars)
    (worked : Block.indentedCode content site o s = .ok written t) : StartsApart written := by
  obtain ⟨code, rfl, -⟩ := indented_written content site o s t written worked
  exact apart_starts _

theorem fenced_apart (content : Chars) (site : Site) (o : Options) (s t : State) (written : Chars)
    (worked : Block.fencedCode content site o s = .ok written t) : StartsApart written := by
  obtain ⟨info, code, rfl, -⟩ := fenced_written content site o s t written worked
  exact apart_starts _

section

variable (o : Options) (m : Mark) (t : String) (a : Attrs) (ks : List Marked) (listed : t ∈ standingTags)

include listed

theorem standing_named (name : String) (other : name ∉ standingTags) : t ≠ name := by
  rintro rfl
  exact other listed

theorem listed_apart (content written : Chars) (s u : State) : ∀ rule ∈ CommonMark.rules,
    rule.claims ⟨.element m t a ks, []⟩ o = .ok true →
      rule.replacement content ⟨.element m t a ks, []⟩ o s = .ok written u → StartsApart written := by
  have elsewhere (rule : Rule) (names : List String) (filter : rule.filter = .tags names)
      (others : ∀ name ∈ names, name ∉ standingTags) : rule.claims ⟨.element m t a ks, []⟩ o ≠ .ok true := by
    intro claims
    rw [Rule.claims, filter] at claims
    exact others t (by simpa [Site.tag, Node.tag] using claims) listed
  have link : Link.isLink ⟨.element m t a ks, []⟩ = false := by
    have other := standing_named t listed "a" (by decide)
    simp [Link.isLink, Node.isNamed, other]
  have code : Inline.isCode ⟨.element m t a ks, []⟩ = false := by
    have other := standing_named t listed "code" (by decide)
    simp [Inline.isCode, Node.isNamed, other]
  simp only [CommonMark.rules, List.forall_mem_cons]
  refine ⟨?paragraph, ?lineBreak, ?heading, ?quote, ?list, ?item, ?indented, ?fenced, ?preformatted, ?thematic, ?inline,
    ?reference, ?emphasis, ?strong, ?code, ?image, by simp⟩
  case paragraph | heading | quote | preformatted | thematic =>
    intro _ worked
    rw [of_function_ok _ content _ o s u written worked]
    exact apart_starts _
  case list =>
    intro _ worked
    rw [of_function_ok _ content _ o s u written worked]
    exact apart_starts _
  case indented => exact fun _ => code_apart content _ o s u written
  case fenced => exact fun _ => fenced_apart content _ o s u written
  case lineBreak | item | emphasis | strong | image =>
    exact fun claims => absurd claims (elsewhere _ _ rfl (by decide))
  case inline | reference =>
    intro claims
    simp [Rule.claims, Filter.holds, link] at claims
  case code =>
    intro claims
    simp [Rule.claims, Filter.holds, code] at claims

theorem rule_apart (rule : Rule) (found : ({} : RuleTable).find ⟨.element m t a ks, []⟩ o m.blank = .ok rule)
    (content written : Chars) (s u : State)
    (worked : rule.replacement content ⟨.element m t a ks, []⟩ o s = .ok written u) : StartsApart written := by
  have block : Node.isBlock (.element m t a ks) = true := (standing_block t listed).1
  rcases RuleTable.find_cases {} _ o m.blank rule found with ⟨-, rfl⟩ | ⟨-, member, claims⟩ | ⟨-, rfl, -⟩
  · change Rule.blankReplacement content _ o s = .ok written u at worked
    rw [of_function_ok _ content _ o s u written worked, block]
    exact ⟨[], rfl⟩
  · rcases List.mem_append.mp member with builtin | removed
    · exact listed_apart o m t a ks listed content written s u rule (by simpa using builtin) claims worked
    · obtain ⟨tag, inside, rfl⟩ := List.mem_map.mp removed
      have other : ∀ name ∈ removedTags, name ∉ standingTags := by decide
      have named : t = tag := by simpa [Rule.claims, Rule.remove, Site.tag, Node.tag] using claims
      exact absurd listed (named ▸ other tag inside)
  · change Rule.defaultReplacement content _ o s = .ok written u at worked
    rw [of_function_ok _ content _ o s u written worked, block]
    exact apart_starts content

end

theorem block_text_apart (o : Options) (n : Marked) (listed : n.tag ∈ standingTags) (written : Chars) (s u : State)
    (worked : blockText o n s = .ok written u) : StartsApart written := by
  cases n with
  | text | comment | document => exact absurd (show "" ∈ standingTags from listed) (by decide)
  | element m t a ks =>
      obtain ⟨rule, content, s₁, s₂, s₃, found, -, replaced⟩ := element_ok {} o [] true [] [] m t a ks written s u worked
      have block : Node.isBlock (.element m t a ks) = true := (standing_block t listed).1
      simp only [replace, block, Bool.true_or, if_true] at replaced
      exact rule_apart o m t a ks listed rule found content written s₂ s₃ replaced

theorem block_text_begins (o : Options) (inlined : o.linkStyle = .inlined) (flowing : o.preformattedCode = false)
    (n : Marked) (tidy : Tidy n) (written : Chars) (s u : State) (worked : blockText o n s = .ok written u) :
    Begins written := by
  cases n with
  | text | comment | document =>
      cases worked
      exact begins_nil
  | element m t a ks =>
      exact (element_neat o inlined flowing [] true [] [] m t a ks tidy.1 (fun outer isBlock head content s u =>
        nodes_neat o inlined flowing outer isBlock head [] [] [] ks tidy.2 neat_nil content s u) written s u worked).2 rfl

end Render

end Downmark
