import Downmark.Proofs.Uncommented
import Downmark.Proofs.Surroundings
/-!
What rules see of the surroundings of an element, with and without the comments there. Main statement: no
rule of the default table looks at comments, neither when it claims an element nor when it writes one.
-/

set_option autoImplicit false

namespace Downmark

open Node

def Step.uncommented (step : Step) : Step :=
  { step with before := uncommentedAll step.before, after := uncommentedAll step.after }

def Site.uncommented (site : Site) : Site := ⟨site.node.uncommented, site.path.map Step.uncommented⟩

-- A comment that does not know its container would end the chain of siblings it stands in.
def KnownComments (ks : List Marked) : Prop := ∀ n ∈ ks, n.isComment = true → n.mark.adopted = true

namespace Site

def CommentsKnown (site : Site) : Prop := ∀ step ∈ site.path.head?, KnownComments step.after

theorem uncommented_chain (ks : List Marked) (known : KnownComments ks) :
    chain (uncommentedAll ks) = uncommentedAll (chain ks) := by
  induction ks with
  | nil => rfl
  | cons n rest ih =>
      have others : KnownComments rest := fun later member => known later (List.mem_cons_of_mem n member)
      rcases comment_or_kept n with ⟨m, data, rfl⟩ | kept
      · have adopted : (Node.comment m data).mark.adopted = true := known _ List.mem_cons_self rfl
        rw [uncommented_comment, chain, if_pos adopted, uncommented_comment, ih others]
      · rw [uncommented_cons n rest kept, chain, chain, uncommented_mark, ih others, uncommented_cons n _ kept]
        split
        · rfl
        · rfl

theorem uncommented_following (site : Site) (known : site.CommentsKnown) :
    site.uncommented.following = uncommentedAll site.following := by
  obtain ⟨n, path⟩ := site
  cases path with
  | nil => rfl
  | cons step outer =>
      change (if step.listed then chain (uncommentedAll step.after) else []) =
        uncommentedAll (if step.listed then chain step.after else [])
      rw [uncommented_chain step.after (known step rfl)]
      split
      · rfl
      · rfl

theorem uncommented_path (head : Head) (path : List Step) (before after : List Marked) (n : Marked) :
    pathTo head (path.map Step.uncommented) (uncommentedAll before) (uncommentedAll after) n.uncommented =
      (pathTo head path before after n).map Step.uncommented := by
  unfold pathTo
  rw [uncommented_mark]
  split
  · rfl
  · rfl

section

variable (site : Site)

@[simp]
theorem uncommented_site_tag : site.uncommented.tag = site.tag := uncommented_tag site.node

theorem uncommented_ancestor (names : List String) :
    site.uncommented.hasAncestor names = site.hasAncestor names := by
  rw [hasAncestor, uncommented, List.any_map]
  rfl

theorem uncommented_is_code : site.uncommented.isCode = site.isCode := by
  rw [isCode, uncommented_ancestor]
  exact congrArg (· || site.hasAncestor ["code"]) (uncommented_named site.node "code")

theorem uncommented_is_in (name : String) : site.uncommented.isIn name = site.isIn name := by
  obtain ⟨n, path⟩ := site
  cases path with
  | nil => rfl
  | cons step outer =>
      obtain ⟨head, before, after, listed⟩ := step
      cases head <;> rfl

theorem uncommented_step_kids (step : Step) (n : Marked) (kept : n.isComment = false) :
    step.uncommented.kids n.uncommented = uncommentedAll (step.kids n) := by
  change (if step.listed then (uncommentedAll step.before).reverse ++ n.uncommented :: uncommentedAll step.after
    else uncommentedAll step.after) = uncommentedAll (if step.listed then _ else _)
  split
  · rw [uncommented_append, uncommented_reverse, uncommented_cons n _ kept]
  · rfl

theorem uncommented_parent (kept : site.node.isComment = false) :
    site.uncommented.parent? = site.parent?.map uncommented := by
  obtain ⟨n, path⟩ := site
  cases path with
  | nil => rfl
  | cons step outer =>
      have kids := uncommented_step_kids step n kept
      have closed : step.head.close (uncommentedAll (step.kids n)) = (step.head.close (step.kids n)).uncommented := by
        cases step.head <;> rfl
      change some (⟨step.head.close (step.uncommented.kids n.uncommented), outer.map Step.uncommented⟩ : Site) = _
      rw [kids, closed]
      rfl

theorem uncommented_marker (o : Options) : Block.markerOf o site.uncommented = Block.markerOf o site := by
  obtain ⟨n, path⟩ := site
  have mark : n.uncommented.mark = n.mark := uncommented_mark n
  have item : ListMarker.ofItem o (uncommented ⟨n, path⟩) = ListMarker.ofItem o ⟨n, path⟩ := by
    cases path with
    | nil => rfl
    | cons step outer =>
        obtain ⟨head, before, after, listed⟩ := step
        cases head with
        | document m => rfl
        | element m t a =>
            by_cases numbered : t = "ol"
            · subst numbered
              change ListMarker.numbered (ListMarker.start a + ((if listed && n.uncommented.isNamed "li" then
                ListMarker.countItems (uncommentedAll before) else 0 : Nat) : Int)) = _
              rw [uncommented_named, uncommented_items]
              rfl
            · simp [ListMarker.ofItem, uncommented, Step.uncommented, numbered]
  rw [Block.markerOf, item]
  exact congrArg (fun mark => mark.marker.getD (ListMarker.ofItem o ⟨n, path⟩)) mark

theorem uncommented_endless (kept : site.node.isComment = false) :
    Render.needsEndlessMarker site.uncommented = Render.needsEndlessMarker site := by
  obtain ⟨n, path⟩ := site
  have around : ListMarker.isEndlessAround (uncommented ⟨n, path⟩) = ListMarker.isEndlessAround ⟨n, path⟩ := by
    cases path with
    | nil => rfl
    | cons step outer =>
        have kids := uncommented_step_kids step n kept
        obtain ⟨head, before, after, listed⟩ := step
        cases head with
        | document m => rfl
        | element m t a =>
            by_cases numbered : t = "ol"
            · subst numbered
              exact (congrArg (ListMarker.isEndless a) kids).trans (ListMarker.uncommented_endless_list a _)
            · simp [ListMarker.isEndlessAround, uncommented, Step.uncommented, numbered]
  cases n with
  | text | comment | document => rfl
  | element m t a ks =>
      by_cases list : t = "ol"
      · subst list
        exact ListMarker.uncommented_endless_list a ks
      · by_cases item : t = "li"
        · subst item
          exact congrArg (m.marker.isNone && ·) around
        · simp [Render.needsEndlessMarker, uncommented, Node.uncommented, list, item]

end

end Site

namespace State

variable (s : State) (o : Options)

theorem uncommented_empty (n : Marked) : s.isEmptyText o n.uncommented = s.isEmptyText o n := by cases n <;> rfl

theorem uncommented_follows (site : Site) (known : site.CommentsKnown) :
    s.hasFollowingContent o site.uncommented = s.hasFollowingContent o site := by
  have empty (n : Marked) (comment : n.isComment = true) : (!s.isEmptyText o n) = false := by
    cases n with
    | comment m data => rfl
    | text | element | document => cases comment
  rw [hasFollowingContent, Site.uncommented_following site known]
  exact uncommented_any _ (fun n => congrArg not (uncommented_empty s o n)) empty site.following

theorem uncommented_next (ks : List Marked) :
    ((uncommentedAll ks).dropWhile isComment).head? = (ks.dropWhile isComment).head?.map Node.uncommented := by
  induction ks with
  | nil => rfl
  | cons n rest ih =>
      rcases comment_or_kept n with ⟨m, data, rfl⟩ | kept
      · rw [uncommented_comment, ih, List.dropWhile_cons_of_pos (by rfl)]
      · have still : n.uncommented.isComment = false := (uncommented_is_comment n).trans kept
        rw [uncommented_cons n rest kept, List.dropWhile_cons_of_neg (by simp [still]),
          List.dropWhile_cons_of_neg (by simp [kept])]
        rfl

theorem uncommented_next_space (site : Site) (known : site.CommentsKnown) :
    s.nextStartsWithSpace o site.uncommented = s.nextStartsWithSpace o site := by
  have next := uncommented_next site.following
  rw [nextStartsWithSpace, Site.uncommented_following site known, nextStartsWithSpace]
  cases here : site.following.dropWhile isComment with
  | nil =>
      rw [here, List.head?_nil, Option.map_none, List.head?_eq_none_iff] at next
      rw [next]
  | cons n rest =>
      rw [here, List.head?_cons, Option.map_some, List.head?_eq_some_iff] at next
      obtain ⟨later, next⟩ := next
      rw [next]
      cases n <;> rfl

end State

-- A rule that does the same for an element whether or not there are comments in it and around it.
structure Rule.IgnoresComments (rule : Rule) : Prop where
  claims : ∀ site o, site.node.isComment = false → rule.claims site.uncommented o = rule.claims site o
  replacement : ∀ content site o, site.CommentsKnown →
    rule.replacement content site.uncommented o = rule.replacement content site o

section

variable (site : Site)

theorem uncommented_link : Link.isLink site.uncommented = Link.isLink site := by
  rw [Link.isLink, Site.uncommented, uncommented_named, uncommented_attr, Link.isLink]

theorem uncommented_title {μ : Type} (n : Node μ) : Link.title? n.uncommented = Link.title? n := by
  rw [Link.title?, uncommented_attr, Link.title?]

theorem uncommented_code (kept : site.node.isComment = false) : Inline.isCode site.uncommented = Inline.isCode site := by
  have named : site.uncommented.node.isNamed "code" = site.node.isNamed "code" := uncommented_named site.node "code"
  rw [Inline.isCode, named, Site.uncommented_is_in, Site.uncommented_parent site kept, Inline.isCode]
  cases site.parent? with
  | none => rfl
  | some parent =>
      refine congrArg (fun block => site.node.isNamed "code" && !(site.isIn "pre" && block)) ?_
      exact uncommented_code_block parent.node

theorem uncommented_list_text (content : Chars) (o : Options) :
    Block.list content site.uncommented o = Block.list content site o := by
  obtain ⟨n, path⟩ := site
  cases path with
  | nil => rfl
  | cons step outer =>
      have last : step.uncommented.isLastElement = step.isLastElement :=
        congrArg (fun found => step.listed && !found) (uncommented_elements step.after)
      funext s
      change EStateM.Result.ok (if step.head.tag == "li" && step.uncommented.isLastElement then '\n' :: content
        else Block.apart content) s = _
      rw [last]
      rfl

theorem uncommented_item_text (content : Chars) (o : Options) (known : site.CommentsKnown) :
    Block.listItem content site.uncommented o = Block.listItem content site o := by
  funext s
  have follows := State.uncommented_follows s o site known
  have marker := Site.uncommented_marker site o
  change EStateM.Result.ok (if s.hasFollowingContent o site.uncommented &&
    (Block.itemText (Block.markerOf o site.uncommented) content).getLast? != some '\n' then
      Block.itemText (Block.markerOf o site.uncommented) content ++ ['\n']
    else Block.itemText (Block.markerOf o site.uncommented) content) s = _
  rw [follows, marker]
  rfl

end

theorem named_ignores (rule : Rule) (names : List String) (filter : rule.filter = .tags names) (site : Site)
    (o : Options) : rule.claims site.uncommented o = rule.claims site o := by
  rw [Rule.claims, Rule.claims, filter]
  simp only [Site.uncommented_site_tag]

theorem listed_ignore : ∀ rule ∈ CommonMark.rules, rule.IgnoresComments := by
  simp only [CommonMark.rules, List.forall_mem_cons]
  refine ⟨?paragraph, ?lineBreak, ?heading, ?quote, ?list, ?item, ?indented, ?fenced, ?preformatted, ?thematic, ?inline,
    ?reference, ?emphasis, ?strong, ?code, ?image, by simp⟩
  case paragraph | lineBreak | quote | thematic =>
    exact ⟨fun site o _ => named_ignores _ _ rfl site o, fun _ _ _ _ => rfl⟩
  case heading =>
    refine ⟨fun site o _ => named_ignores _ _ rfl site o, fun content site o _ => ?_⟩
    simp only [Block.heading, Replacement.ofFunction, Site.uncommented_site_tag]
  case list =>
    exact ⟨fun site o _ => named_ignores _ _ rfl site o, fun content site o _ => uncommented_list_text site content o⟩
  case item =>
    exact ⟨fun site o _ => named_ignores _ _ rfl site o,
      fun content site o known => uncommented_item_text site content o known⟩
  case indented =>
    refine ⟨fun site o _ => ?_, fun content site o _ => ?_⟩
    · simp only [Rule.claims, Filter.holds, CommonMark.isCodeBlock, Site.uncommented, uncommented_code_block]
    · simp only [Block.indentedCode, Site.uncommented, uncommented_block_text]
  case fenced =>
    refine ⟨fun site o _ => ?_, fun content site o _ => ?_⟩
    · simp only [Rule.claims, Filter.holds, CommonMark.isCodeBlock, Site.uncommented, uncommented_code_block]
    · simp only [Block.fencedCode, Site.uncommented, uncommented_block_text, uncommented_language]
  case preformatted =>
    refine ⟨fun site o _ => ?_, fun _ _ _ _ => rfl⟩
    simp only [Rule.claims, Filter.holds, CommonMark.isPreformatted, Site.uncommented, uncommented_named,
      uncommented_code_block]
  case inline =>
    refine ⟨fun site o _ => ?_, fun content site o _ => ?_⟩
    · simp only [Rule.claims, Filter.holds, uncommented_link]
    · simp only [Link.inlineLink, Replacement.ofFunction, Site.uncommented, uncommented_attr, uncommented_title]
  case reference =>
    refine ⟨fun site o _ => ?_, fun content site o _ => ?_⟩
    · simp only [Rule.claims, Filter.holds, uncommented_link]
    · simp only [Link.referenceLink, Site.uncommented, uncommented_attr, uncommented_title]
  case emphasis =>
    refine ⟨fun site o _ => named_ignores _ _ rfl site o, fun content site o _ => ?_⟩
    simp only [Inline.emphasis, Replacement.ofFunction, Site.uncommented, uncommented_text]
  case strong =>
    refine ⟨fun site o _ => named_ignores _ _ rfl site o, fun content site o _ => ?_⟩
    simp only [Inline.strong, Replacement.ofFunction, Site.uncommented, uncommented_text]
  case code =>
    refine ⟨fun site o kept => ?_, fun _ _ _ _ => rfl⟩
    simp only [Rule.claims, Filter.holds, uncommented_code site kept]
  case image =>
    refine ⟨fun site o _ => named_ignores _ _ rfl site o, fun content site o _ => ?_⟩
    simp only [Link.image, Link.imageText, Site.uncommented, uncommented_attr, uncommented_title]

theorem default_table_ignores : ∀ rule ∈ ({} : RuleTable).inOrder, rule.IgnoresComments := by
  intro rule member
  rcases List.mem_append.mp member with builtin | removed
  · exact listed_ignore rule (by simpa using builtin)
  · obtain ⟨tag, -, rfl⟩ := List.mem_map.mp removed
    exact ⟨fun site o _ => named_ignores _ _ rfl site o, fun _ _ _ _ => rfl⟩

namespace RuleTable

theorem find_ignores (table : RuleTable) (ignores : ∀ rule ∈ table.inOrder, rule.IgnoresComments) (site : Site)
    (o : Options) (blank : Bool) (rule : Rule) (found : table.find site o blank = .ok rule) :
    rule.IgnoresComments := by
  have block (site : Site) : site.uncommented.node.isBlock = site.node.isBlock := uncommented_block site.node
  rcases find_cases table site o blank rule found with ⟨-, rfl⟩ | ⟨-, listed, -⟩ | ⟨-, rfl, -⟩
  · refine ⟨fun _ _ _ => rfl, fun content site o _ => ?_⟩
    simp only [Rule.blank, Rule.blankReplacement, Replacement.ofFunction, block]
  · exact ignores rule listed
  · refine ⟨fun _ _ _ => rfl, fun content site o _ => ?_⟩
    simp only [Rule.default, Rule.defaultReplacement, Replacement.ofFunction, block]

end RuleTable

end Downmark
