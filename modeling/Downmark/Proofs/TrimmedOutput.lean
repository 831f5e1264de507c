import Downmark.Proofs.ReliableRules
import Downmark.Proofs.RenderedTop
import Downmark.Proofs.Stacked
import Downmark.Proofs.Tracking
/-!
The ends of a document. What is rendered is trimmed, and the collected definitions are written behind it as they are.
Main statement: no text starts with a newline, and it ends in white space just if the last definition has a bare
destination that does, which is the one of a link or an image of the tree.
-/

set_option autoImplicit false

namespace Downmark

namespace Reference

/-- Nothing stands behind the destination, it is not between angle brackets, and it ends in white space. -/
def Link.isRagged (link : Link) : Bool :=
  (link.title.getD []).isEmpty && !link.url.contains ' ' && link.url.getLast?.any Text.isBlank

theorem title_suffix_last (title : Option Chars) :
    if (title.getD []).isEmpty then titleSuffix title = [] else (titleSuffix title).getLast? = some '"' := by
  match title with
  | none | some [] => rfl
  | some (c :: rest) =>
      change ((' ' :: '"' :: Text.replaceChar '"' ['\\', '"'] (c :: rest)) ++ ['"']).getLast? = some '"'
      exact List.getLast?_concat

theorem definition_last (link : Link) : link.toMarkdown.getLast?.any Text.isBlank = link.isRagged := by
  have titled := title_suffix_last link.title
  unfold Link.toMarkdown Link.isRagged
  split at titled
  · rename_i untitled
    rw [titled, List.append_nil, untitled, Bool.true_and]
    split
    · rename_i bracketed
      have plain : (!link.url.contains ' ' && link.url.getLast?.any Text.isBlank) = false := by
        rcases (Bool.or_eq_true _ _).mp bracketed with space | empty
        · rw [space]
          rfl
        · rw [List.isEmpty_iff.mp empty]
          rfl
      have bracket : ('<' :: link.url ++ ['>']).getLast? = some '>' := List.getLast?_concat
      have some : '<' :: link.url ++ ['>'] ≠ [] := List.cons_ne_nil _ _
      rw [plain, List.getLast?_append_of_ne_nil _ some, bracket]
      rfl
    · rename_i bare
      obtain ⟨spaceless, solid⟩ := Bool.or_eq_false_iff.mp (Bool.eq_false_iff.mpr bare)
      rw [List.getLast?_append_of_ne_nil _ (by simpa using solid), spaceless]
      rfl
  · rename_i entitled
    rw [List.getLast?_append_of_ne_nil _ (by rintro none; simp [none] at titled), titled,
      Bool.eq_false_iff.mpr entitled]
    rfl

theorem definitions_last (links : List Link) :
    (Text.unlines (links.map Link.toMarkdown)).getLast?.any Text.isBlank = links.getLast?.any Link.isRagged := by
  rcases List.eq_nil_or_concat links with rfl | ⟨front, last, rfl⟩
  · rfl
  · obtain ⟨before, whole⟩ := Text.unlines_last (front.map Link.toMarkdown) last.toMarkdown
    have some : last.toMarkdown ≠ [] := List.cons_ne_nil _ _
    rw [List.concat_eq_append, List.map_append, List.map_singleton, whole, List.getLast?_append_of_ne_nil _ some,
      definition_last, List.getLast?_concat]
    rfl

theorem definitions_first (links : List Link) :
    (Text.unlines (links.map Link.toMarkdown)).head?.any Render.isLineStart = false := by
  cases links with
  | nil => rfl
  | cons first rest =>
      obtain ⟨more, whole⟩ := Text.unlines_first first.toMarkdown (rest.map Link.toMarkdown)
      rw [List.map_cons, whole]
      rfl

end Reference

namespace Render

open Node Reference

/-! The ends of what is written -/

theorem trim_end_iff (p : Char → Bool) (s : Chars) : Text.trimEnd p s = s ↔ s.getLast?.any p = false :=
  ⟨fun same => same ▸ Text.trim_end_stop p s, Text.trim_end_none p s⟩

theorem trimmed_first (output : Chars) : (trimmed output).head?.any isLineStart = false := by
  have stop := Text.drop_stop isLineStart output
  obtain ⟨run, whole, -⟩ := Text.trim_end_run Text.isBlank (Text.trimStart isLineStart output)
  rw [trimmed]
  cases kept : Text.trimEnd Text.isBlank (Text.trimStart isLineStart output) with
  | nil => rfl
  | cons c rest =>
      rw [kept] at whole
      rwa [← Text.trimStart, whole] at stop

/-- A text with the definitions that belong to it. -/
def withDefinitions (text : Chars) (links : List Link) : Chars :=
  if links.isEmpty then text
  else if text.isEmpty then Text.unlines (links.map Link.toMarkdown)
  else text ++ '\n' :: '\n' :: Text.unlines (links.map Link.toMarkdown)

theorem finish_writes (output text : Chars) (s u : State) (finished : finish output s = .ok text u) :
    text = withDefinitions (trimmed output) s.references.toList := by
  have empty : s.references.toList.isEmpty = s.references.isEmpty := by
    simp [Collector.toList, Collector.isEmpty]
  have listed : s.references.toMarkdown = Text.unlines (s.references.toList.map Link.toMarkdown) := by
    rw [Collector.toMarkdown, Collector.toList, List.map_map]
    rfl
  rw [withDefinitions, empty, ← listed]
  change (if s.references.isEmpty = true then pure (trimmed output) else _ : Rendering Chars) s = _ at finished
  split at finished
  · rename_i none
    cases finished
    rw [if_pos none]
  · rename_i some
    cases finished
    rw [if_neg some]
    rfl

theorem ends_first (text : Chars) (links : List Link) (first : text.head?.any isLineStart = false) :
    (withDefinitions text links).head?.any isLineStart = false := by
  unfold withDefinitions
  split
  · exact first
  · split
    · exact definitions_first links
    · rename_i some
      cases text with
      | nil => exact absurd rfl some
      | cons => exact first

theorem ends_last (text : Chars) (links : List Link) (last : text.getLast?.any Text.isBlank = false) :
    (withDefinitions text links).getLast?.any Text.isBlank = links.getLast?.any Link.isRagged := by
  rw [← definitions_last]
  cases links with
  | nil => exact last
  | cons link rest =>
      have some : Text.unlines ((link :: rest).map Link.toMarkdown) ≠ [] := by
        obtain ⟨more, whole⟩ := Text.unlines_first link.toMarkdown (rest.map Link.toMarkdown)
        rw [List.map_cons, whole]
        exact List.cons_ne_nil _ _
      rw [withDefinitions, if_neg (by simp)]
      split
      · rfl
      · rw [List.getLast?_append_of_ne_nil _ (List.cons_ne_nil _ _), ← List.singleton_append,
          ← List.singleton_append (l := Text.unlines _), ← List.append_assoc, List.getLast?_append_of_ne_nil _ some]

theorem ends_defined (text : Chars) (links : List Link) :
    Text.unlines (links.map Link.toMarkdown) <:+ withDefinitions text links := by
  unfold withDefinitions
  split
  · rename_i none
    rw [List.isEmpty_iff.mp none]
    exact List.nil_suffix
  · split
    · exact List.suffix_refl _
    · exact ⟨text ++ ['\n', '\n'], by rw [List.append_assoc]; rfl⟩

/-! Where the definitions come from -/

section

variable {P : Target → Prop}

theorem defines_same {α : Type} (work : Rendering α) (same : ∀ s a t, work s = .ok a t → t.references = s.references) :
    Defines P work := by
  intro s a t worked leads
  rwa [same s a t worked]

theorem find_defines (table : RuleTable) (reliable : ∀ rule ∈ table.inOrder, rule.Reliable) (site : Site) (o : Options)
    (blank : Bool) (rule : Rule) (found : table.find site o blank = .ok rule) (content : Chars)
    (own : o.linkStyle = .referenced → ∀ target, site.node.target? = some target → P target) :
    Defines P (rule.replacement content site o) := by
  rcases RuleTable.find_cases table site o blank rule found with ⟨-, rfl⟩ | ⟨-, listed, claims⟩ | ⟨-, rfl, -⟩
  · exact defines_bind _ _ defines_get fun _ => defines_pure _
  · exact (reliable rule listed).defines P content site o claims own
  · exact defines_bind _ _ defines_get fun _ => defines_pure _

theorem replace_defines (rule : Rule) (site : Site) (o : Options) (content preceding : Chars)
    (defines : ∀ content, Defines P (rule.replacement content site o)) :
    Defines P (replace rule site o content preceding) := by
  unfold replace
  split
  · exact defines content
  · exact defines_bind _ _ defines_get fun _ => defines_bind _ _ (defines _) fun _ => defines_pure _

theorem marked_target (f : Mark → Unit) (n : Marked) : (n.mapMarks f).target? = n.target? := by
  cases n <;> rfl

-- What holds of the targets of a tree holds of those of what is prepared of it.
theorem prepared_targets (o : Options) (top : Tree)
    (targets : ∀ below ∈ top :: top.descendants, ∀ target, below.target? = some target → P target) :
    ∀ below ∈ prepare o (unmark top) :: (prepare o (unmark top)).descendants,
      ∀ target, below.target? = some target → P target := by
  intro below member target leads
  have bared : bare (prepare o (unmark top)) = top := (prepare_bare o (unmark top)).trans (bare_marked _ top)
  refine targets below.bare ?_ target ((marked_target _ below).trans leads)
  rw [← bared, bare, descendants_marks, ← List.map_cons]
  exact List.mem_map_of_mem member

theorem element_defines (table : RuleTable) (reliable : ∀ rule ∈ table.inOrder, rule.Reliable) (o : Options)
    (outer : List Open) (isBlock : Bool) (path : List Step) (output : Chars) (m : Mark) (t : String) (a : Attrs)
    (ks : List Marked)
    (own : o.linkStyle = .referenced → ∀ target, target? (.element m t a ks) = some target → P target)
    (below : ∀ outer isBlock, Defines P (nodes table o outer isBlock (.element m t a) path [] [] ks)) :
    Defines P (elementText table o outer isBlock path output m t a ks) := by
  obtain ⟨rule, found, -⟩ := find_reliable table reliable ⟨.element m t a ks, path⟩ o m.blank
  rw [element_found table o outer isBlock path output m t a ks rule found]
  refine defines_bind _ _ (defines_same _ fun s _ u => enter_references o _ s u) fun _ => ?_
  refine defines_bind _ _ (defines_bind _ _ ?_ fun content => ?_) fun _ => ?_
  · unfold contentText
    split
    · exact below _ _
    · exact defines_pure _
  · exact replace_defines rule _ o content output fun content =>
      find_defines table reliable _ o m.blank rule found content own
  · exact defines_bind _ _ (defines_same _ fun s _ u => leave_references o _ s u) fun _ => defines_pure _

mutual

theorem node_defines (table : RuleTable) (reliable : ∀ rule ∈ table.inOrder, rule.Reliable) (o : Options)
    (outer : List Open) (isBlock : Bool) (path : List Step) (output : Chars) (n : Marked)
    (own : o.linkStyle = .referenced → ∀ below ∈ n :: n.descendants, ∀ target, below.target? = some target → P target) :
    Defines P (node table o outer isBlock path output n) := by
  cases n with
  | text m data =>
      rw [node]
      exact defines_bind _ _ defines_get fun _ => defines_pure _
  | comment | document =>
      rw [node]
      exact defines_pure output
  | element m t a ks =>
      rw [node_element]
      refine defines_bind _ _ (element_defines table reliable o outer isBlock path output m t a ks
        (fun asked => own asked _ List.mem_cons_self) fun outer isBlock => ?_) fun _ => defines_pure _
      refine nodes_define table reliable o outer isBlock _ path [] [] ks fun asked below member => ?_
      exact own asked below (List.mem_cons_of_mem _ member)

theorem nodes_define (table : RuleTable) (reliable : ∀ rule ∈ table.inOrder, rule.Reliable) (o : Options)
    (outer : List Open) (isBlock : Bool) (head : Head) (path : List Step) (before : List Marked) (output : Chars)
    (ks : List Marked)
    (own : o.linkStyle = .referenced → ∀ below ∈ forest ks, ∀ target, below.target? = some target → P target) :
    Defines P (nodes table o outer isBlock head path before output ks) := by
  cases ks with
  | nil =>
      rw [nodes]
      exact defines_pure output
  | cons n rest =>
      rw [nodes]
      have listed : forest (n :: rest) = (n :: n.descendants) ++ forest rest := rfl
      rw [listed] at own
      refine defines_bind _ _ (node_defines table reliable o outer isBlock _ output n fun asked below member => ?_)
        fun output => nodes_define table reliable o outer isBlock head path (n :: before) output rest
          fun asked below member => ?_
      · exact own asked below (List.mem_append_left _ member)
      · exact own asked below (List.mem_append_right _ member)

end

theorem root_defines (table : RuleTable) (reliable : ∀ rule ∈ table.inOrder, rule.Reliable) (o : Options) (tree : Tree)
    (own : o.linkStyle = .referenced →
      ∀ below ∈ tree :: tree.descendants, ∀ target, below.target? = some target → P target) :
    Defines P (root table o (Site.ofTree tree)) := by
  cases tree with
  | text | comment | element =>
      exact node_defines table reliable o [] true [] [] _ fun asked => prepared_targets o _ (own asked)
  | document m ks =>
      obtain ⟨top, head, path, ks', rendered⟩ := document_top o m ks
      rw [rendered.rendered]
      refine nodes_define table reliable o [] true head path [] [] ks' fun asked below member => ?_
      refine prepared_targets o top (fun n inside => own asked n ?_) below ?_
      · exact inside_below _ top rendered.inside n inside
      · rw [rendered.shape]
        cases head with
        | element | document => exact List.mem_cons_of_mem _ member

end

/-! The whole document -/

/-- The definitions that were collected when a tree has been rendered. -/
def collected (table : RuleTable) (o : Options) (tree : Tree) : List Link :=
  match root table o (Site.ofTree tree) { log := [.renderStarted (Site.ofTree tree).node.kind table.count] } with
  | .ok _ s => s.references.toList
  | .error _ _ => []

theorem site_writes (table : RuleTable) (o : Options) (tree : Tree) (text : Chars) (u : State)
    (written : site table o (Site.ofTree tree) {} = .ok text u) :
    ∃ output, text = withDefinitions (trimmed output) (collected table o tree) := by
  have noted : site table o (Site.ofTree tree) {} = (root table o (Site.ofTree tree) >>= finish)
    { log := [.renderStarted (Site.ofTree tree).node.kind table.count] } := rfl
  rw [noted] at written
  obtain ⟨output, s, rendered, finished⟩ := (bind_ok_iff _ _ _ _ _).mp written
  exact ⟨output, by rw [finish_writes output text s u finished, collected, rendered]⟩

theorem collected_own (table : RuleTable) (reliable : ∀ rule ∈ table.inOrder, rule.Reliable) (o : Options)
    (tree : Tree) : ∀ link ∈ collected table o tree, o.linkStyle = .referenced ∧
      ∃ n ∈ tree :: tree.descendants, n.target? = some link.target := by
  unfold collected
  split
  · rename_i output s rendered
    have defines := root_defines table reliable o tree (P := fun target =>
      o.linkStyle = .referenced ∧ ∃ n ∈ tree :: tree.descendants, n.target? = some target)
      fun asked n member target leads => ⟨asked, n, member, leads⟩
    exact defines _ output s rendered fun link listed => by cases listed
  · exact fun link listed => by cases listed

theorem rendered_trimmed_iff (plugins : List Plugin) (known : ∀ p ∈ plugins, p ∈ Gfm.bundled) :
    ∃ w, plugins.forM Plugin.apply {} = .ok () w ∧ ∀ (o : Options) (tree : Tree) (text : Chars) (u : State),
      site w.table o (Site.ofTree tree) {} = .ok text u →
        text.head?.any isLineStart = false ∧
        (Text.trimEnd Text.isBlank text = text ↔ (collected w.table o tree).getLast?.any Link.isRagged = false) ∧
        Text.unlines ((collected w.table o tree).map Link.toMarkdown) <:+ text ∧
        ∀ link ∈ collected w.table o tree, o.linkStyle = .referenced ∧
          ∃ n ∈ tree :: tree.descendants, n.target? = some link.target := by
  obtain ⟨w, applied, reliable⟩ := Gfm.plugins_safe plugins known {} Gfm.default_reliable
  refine ⟨w, applied, fun o tree text u written => ?_⟩
  obtain ⟨output, rfl⟩ := site_writes w.table o tree text u written
  have stop : (trimmed output).getLast?.any Text.isBlank = false := Text.trim_end_stop _ _
  refine ⟨ends_first _ _ (trimmed_first output), ?_, ends_defined _ _, collected_own w.table reliable.rules o tree⟩
  rw [trim_end_iff, ends_last _ _ stop]

/-- A link to a destination that ends in a newline, and another one whose definition has a title. -/
def citedPages : Tree :=
  .element () "p" [] [
    .element () "a" [("href", ['x', '\n'])] [.text () ['a']],
    .element () "a" [("href", ['y']), ("title", ['t'])] [.element () "del" [] [.text () ['b']]]]

theorem cited_pages_trimmed : (∀ p ∈ Gfm.bundled.take 1, p ∈ Gfm.bundled) ∧
    ∃ w, (Gfm.bundled.take 1).forM Plugin.apply {} = .ok () w ∧ ∃ text u,
      site w.table { linkStyle := .referenced, labelStyle := .shortcut } (Site.ofTree citedPages) {} = .ok text u ∧
      text = "[a][~~b~~]\n\n[a]: x\n\n[~~b~~]: y \"t\"".toList ∧
      text.head?.any isLineStart = false ∧ Text.trimEnd Text.isBlank text = text := by
  have known : ∀ p ∈ Gfm.bundled.take 1, p ∈ Gfm.bundled := fun _ member => List.mem_of_mem_take member
  obtain ⟨w, applied, ends⟩ := rendered_trimmed_iff (Gfm.bundled.take 1) known
  let o : Options := { linkStyle := .referenced, labelStyle := .shortcut }
  obtain ⟨same, last⟩ : (answer (site w.table o (Site.ofTree citedPages)) {}).toOption =
      some "[a][~~b~~]\n\n[a]: x\n\n[~~b~~]: y \"t\"".toList ∧
      (collected w.table o citedPages).getLast?.any Link.isRagged = false := by
    clear ends
    cases applied
    decide +kernel
  cases written : site w.table o (Site.ofTree citedPages) {} with
  | error failure u =>
      rw [answer, written] at same
      cases same
  | ok text u =>
      rw [answer, written] at same
      obtain ⟨first, trimmed, -⟩ := ends o citedPages text u written
      exact ⟨known, w, applied, text, u, written, Option.some.inj same, first, trimmed.mpr last⟩

def raggedLink : Tree := .element () "p" [] [.element () "a" [("href", ['x', '\n'])] [.text () ['a']]]

-- The only definition ends in a newline, and so does the text.
theorem ragged_link_untrimmed : ¬ ∀ (o : Options) (tree : Tree) (text : Chars) (u : State),
    site {} o (Site.ofTree tree) {} = .ok text u → Text.trimEnd Text.isBlank text = text := by
  intro always
  have written : ∃ u, site {} { linkStyle := .referenced, labelStyle := .shortcut } (Site.ofTree raggedLink) {} =
      .ok "[a]\n\n[a]: x\n".toList u := ⟨_, rfl⟩
  obtain ⟨u, written⟩ := written
  have same := always _ _ _ u written
  exact absurd same (by decide)

end Render

end Downmark
