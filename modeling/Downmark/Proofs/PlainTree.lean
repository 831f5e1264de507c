import Downmark.Proofs.PlainElements
import Downmark.Proofs.Squeezed
/-!
Plain trees: text, comments and plain elements, nested to any depth. Main statements: the trees below a
paragraph are plain if the default rule is all there is for them, and preparing keeps a tree plain.
-/

set_option autoImplicit false

namespace Downmark

-- All white space of the text is spaces, as it is once runs of it are squeezed.
def Spaced (s : Chars) : Prop := ∀ c ∈ s, Whitespace.isCollapsible c → c = ' '

mutual

def PlainTree : Marked → Prop
  | .text m _ => ∀ shown, m.shown = some shown → Spaced shown
  | .comment _ _ => True
  | .document _ _ => False
  | .element _ t a ks => Plain t a ∧ PlainTrees ks

def PlainTrees : List Marked → Prop
  | [] => True
  | n :: rest => PlainTree n ∧ PlainTrees rest

end

-- What takes the default rule, unless it is blank.
def Literal (o : Options) (site : Site) : Prop :=
  match site.node with
  | .text _ _ => True
  | .comment _ _ => True
  | .document _ _ => False
  | .element _ t _ _ => isBlockTag t = false ∧ isVoidTag t = false ∧
      ({} : RuleTable).find site o false = .ok Rule.default

def unmarked {μ : Type} (_ : μ) : Mark := {}

theorem path_to_outside (head : Head) (path : List Step) (before after : List Marked) (n : Marked)
    (outside : head.tag ≠ "pre") : Site.parentTag? ⟨n, Site.pathTo head path before after n⟩ ≠ some "pre" := by
  unfold Site.pathTo
  split
  · cases head with
    | element m t a => simpa [Site.parentTag?, Head.tag] using outside
    | document m => simp [Site.parentTag?]
  · simp [Site.parentTag?]

mutual

theorem literal_tree (o : Options) (path : List Step) (n : Tree)
    (outside : Site.parentTag? ⟨n.mapMarks unmarked, path⟩ ≠ some "pre")
    (literal : ∀ below ∈ Site.within path (n.mapMarks unmarked), Literal o below) :
    PlainTree (n.mapMarks unmarked) := by
  cases n with
  | text m data =>
      intro shown noted
      cases noted
  | comment m data => trivial
  | document m ks => exact (literal _ List.mem_cons_self).elim
  | element m t a ks =>
      obtain ⟨inline, filled, found⟩ := literal _ List.mem_cons_self
      have plain := default_plain o _ t a _ path (absurd · outside) inline filled found
      have inner : (Head.element (unmarked m) t a).tag ≠ "pre" := plain_other t a plain "pre" (by decide)
      exact ⟨plain, literal_trees o _ path [] ks inner
        (fun below member => literal below (List.mem_cons_of_mem _ member))⟩

theorem literal_trees (o : Options) (head : Head) (path : List Step) (before : List Marked) (ks : List Tree)
    (outside : head.tag ≠ "pre")
    (literal : ∀ below ∈ Site.among head path before (Node.mapAllMarks unmarked ks), Literal o below) :
    PlainTrees (Node.mapAllMarks unmarked ks) := by
  cases ks with
  | nil => trivial
  | cons n rest =>
      rw [Node.mapAllMarks, Site.among] at literal
      exact ⟨literal_tree o _ n (path_to_outside head path before _ _ outside)
          (fun below member => literal below (List.mem_append_left _ member)),
        literal_trees o head path _ rest outside
          (fun below member => literal below (List.mem_append_right _ member))⟩

end

namespace Whitespace

theorem squeeze_spaced (inRun : Bool) (s : Chars) : Spaced (squeezeFrom inRun s) := by
  induction s generalizing inRun with
  | nil => simp [Spaced, squeezeFrom]
  | cons c s ih =>
      by_cases blank : isCollapsible c
      · rw [squeeze_from_blank inRun c s blank]
        cases inRun with
        | false =>
            intro d member _
            rcases List.mem_cons.mp member with rfl | later
            · rfl
            · exact ih true d later ‹_›
        | true => exact ih true
      · have solid : isCollapsible c = false := by simpa using blank
        rw [squeeze_from_solid inRun c s solid]
        intro d member collapsible
        rcases List.mem_cons.mp member with rfl | later
        · exact absurd collapsible blank
        · exact ih false d later collapsible

def SpacedEvent (e : Event) : Prop := ∀ s, e = .text s → Spaced s

theorem drop_space_spaced (s : Chars) (spaced : Spaced s) : Spaced (dropSpace s) := by
  unfold dropSpace
  split
  · exact fun c member => spaced c (List.mem_cons_of_mem _ member)
  · exact spaced

theorem forward_spaced (flow : Flow) (found : List Event) : ∀ e ∈ forward flow found, SpacedEvent e := by
  induction found generalizing flow with
  | nil => simp [forward]
  | cons e rest ih =>
      have silent (e : Event) (other : ∀ s, e ≠ .text s) : SpacedEvent e := fun s same => absurd same (other s)
      cases e with
      | text raw =>
          intro e member
          rcases List.mem_cons.mp member with rfl | later
          · intro s same
            obtain rfl := Event.text.inj same
            split
            · exact drop_space_spaced _ (squeeze_spaced false raw)
            · exact squeeze_spaced false raw
          · exact ih _ e later
      | border | solid | tag =>
          intro e member
          rcases List.mem_cons.mp member with rfl | later
          · exact silent _ (by simp)
          · exact ih _ e later

theorem trim_end_spaced (p : Char → Bool) (s : Chars) (spaced : Spaced s) : Spaced (Text.trimEnd p s) := by
  intro c member
  have inside : c ∈ s.reverse := (List.dropWhile_sublist p).mem (List.mem_reverse.mp member)
  exact spaced c (List.mem_reverse.mp inside)

theorem backward_spaced (found : List Event) (all : ∀ e ∈ found, SpacedEvent e) :
    ∀ s ∈ (backward found).2, Spaced s := by
  induction found with
  | nil => simp [backward]
  | cons e rest ih =>
      have later := ih (fun f member => all f (List.mem_cons_of_mem e member))
      cases e with
      | text s =>
          have here : Spaced s := all _ List.mem_cons_self s rfl
          obtain ⟨t, whole, same | trimmed⟩ := backward_text s rest
          · rw [whole, List.forall_mem_cons]
            exact ⟨same ▸ here, later⟩
          · rw [whole, List.forall_mem_cons]
            exact ⟨trimmed ▸ trim_end_spaced _ s here, later⟩
      | border | solid | tag => exact later

theorem settle_spaced (found : List Event) : ∀ s ∈ settle found, Spaced s :=
  backward_spaced _ (forward_spaced {} found)

mutual

theorem fill_plain (keep : Bool) (n : Marked) (texts : List Chars) (plain : PlainTree n)
    (spaced : ∀ s ∈ texts, Spaced s) :
    PlainTree (fill keep n texts).1 ∧ ∀ s ∈ (fill keep n texts).2, Spaced s := by
  cases n with
  | text m data =>
      cases texts with
      | nil => exact ⟨plain, spaced⟩
      | cons s rest =>
          refine ⟨?_, fun t member => spaced t (List.mem_cons_of_mem s member)⟩
          intro shown noted
          obtain rfl := Option.some.inj noted
          exact spaced s List.mem_cons_self
  | comment m data => exact ⟨trivial, spaced⟩
  | document m ks => exact plain.elim
  | element m t a ks =>
      obtain ⟨named, below⟩ := plain
      obtain ⟨filled, left⟩ := fill_all_plain keep ks texts below spaced
      rw [fill]
      split
      · exact ⟨⟨named, below⟩, spaced⟩
      · exact ⟨⟨named, filled⟩, left⟩

theorem fill_all_plain (keep : Bool) (ks : List Marked) (texts : List Chars) (plain : PlainTrees ks)
    (spaced : ∀ s ∈ texts, Spaced s) :
    PlainTrees (fillAll keep ks texts).1 ∧ ∀ s ∈ (fillAll keep ks texts).2, Spaced s := by
  cases ks with
  | nil => exact ⟨trivial, spaced⟩
  | cons n rest =>
      obtain ⟨first, others⟩ := plain
      obtain ⟨here, left⟩ := fill_plain keep n texts first spaced
      obtain ⟨later, unused⟩ := fill_all_plain keep rest _ others left
      exact ⟨⟨here, later⟩, unused⟩

end

end Whitespace

mutual

theorem mark_blank_plain (n : Marked) (plain : PlainTree n) : PlainTree (Node.markBlank n).1 := by
  cases n with
  | text m data => exact plain
  | comment m data => trivial
  | document m ks => exact plain.elim
  | element m t a ks => exact ⟨plain.1, mark_all_blank_plain ks plain.2⟩

theorem mark_all_blank_plain (ks : List Marked) (plain : PlainTrees ks) :
    PlainTrees (Node.markAllBlank ks).1 := by
  cases ks with
  | nil => trivial
  | cons n rest => exact ⟨mark_blank_plain n plain.1, mark_all_blank_plain rest plain.2⟩

end

theorem plain_no_list (t : String) (a : Attrs) (plain : Plain t a) : isListTag t = false := by
  have bullets := plain_other t a plain "ul" (by decide)
  have numbers := plain_other t a plain "ol" (by decide)
  simp [isListTag, bullets, numbers]

mutual

theorem marker_plain (o : Options) (n : Marked) (plain : PlainTree n) : PlainTree (ListMarker.mark o n) := by
  cases n with
  | text m data => exact plain
  | comment m data => trivial
  | document m ks => exact plain.elim
  | element m t a ks =>
      rw [ListMarker.mark, plain_no_list t a plain.1]
      exact ⟨plain.1, marker_all_plain o ks plain.2⟩

theorem marker_all_plain (o : Options) (ks : List Marked) (plain : PlainTrees ks) :
    PlainTrees (ListMarker.markAll o ks) := by
  cases ks with
  | nil => trivial
  | cons n rest => exact ⟨marker_plain o n plain.1, marker_all_plain o rest plain.2⟩

end

-- Only marks change: texts are noted, blank elements are marked, and there is no list to number.
theorem paragraph_prepared (o : Options) (m : Mark) (a : Attrs) (ks : List Marked) (plain : PlainTrees ks) :
    ∃ m' ks', prepare o (.element m "p" a ks) = .element m' "p" a ks' ∧ PlainTrees ks' := by
  have collapsed : Whitespace.collapse o.preformattedCode (.element m "p" a ks) = .element m "p" a
      (Whitespace.fillAll o.preformattedCode ks
        (Whitespace.settle (Whitespace.eventsOf o.preformattedCode ks))).1 := by
    simp [Whitespace.collapse, Whitespace.isKept]
  have filled := (Whitespace.fill_all_plain o.preformattedCode ks _ plain
    (Whitespace.settle_spaced (Whitespace.eventsOf o.preformattedCode ks))).1
  rw [prepare, collapsed, Node.markBlank, ListMarker.mark, if_neg (by decide)]
  exact ⟨_, _, rfl, marker_all_plain o _ (mark_all_blank_plain _ filled)⟩

end Downmark
