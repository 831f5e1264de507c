import Mathlib.Data.List.Nodup
import Mathlib.Data.List.TakeWhile
import Downmark.Node.BlankStack
import Downmark.Prepared
import Downmark.Rule.Table
/-!
An element is blank if there is nothing to see of it, and what there is to see of a container is what
there is to see of its children. Main statement: looking below every element anew, going over the
tree once with a stack, and noting it on the tree once all tell the same blank elements, and so lead
to the same rule.
-/

set_option autoImplicit false

namespace Downmark.Text

theorem strip_empty (s : Chars) : (strip s).isEmpty = isBlankText s := by
  have trimmed : strip s = [] ↔ ∀ c ∈ s, isBlank c := by
    rw [strip, trim, trimEnd, trimStart, List.reverse_eq_nil_iff, List.dropWhile_eq_nil_iff]
    simp only [List.mem_reverse]
    constructor
    · intro kept c member
      rw [← List.takeWhile_append_dropWhile (p := isBlank) (l := s)] at member
      rcases List.mem_append.mp member with early | late
      · exact List.all_eq_true.mp List.all_takeWhile c early
      · exact kept c late
    · intro all c member
      exact all c ((List.dropWhile_sublist isBlank).mem member)
  rw [Bool.eq_iff_iff, List.isEmpty_iff, trimmed, isBlankText, List.all_eq_true]

end Downmark.Text

namespace Downmark.Node

variable {μ ν ι : Type}

def stays (n : Node μ) : Bool := n.isElement && staysBlankTag n.tag

-- Whether there is anything to see of a node.
def isSolid (n : Node μ) : Bool := !Text.isBlankText n.textContent || (n :: n.descendants).any stays

theorem element_blank (n : Node μ) (element : n.isElement) : n.isBlank = !n.isSolid := by
  have self : stays n = staysBlankTag n.tag := by rw [stays, element, Bool.true_and]
  change (!staysBlankTag n.tag && Text.isBlankText n.textContent && !n.descendants.any stays) = !n.isSolid
  rw [isSolid, List.any_cons, self, Bool.not_or, Bool.not_or, Bool.not_not]
  ac_rfl

theorem any_solid (ks : List (Node μ)) :
    ks.any isSolid = (!Text.isBlankText (textContents ks) || (forest ks).any stays) := by
  induction ks with
  | nil => rfl
  | cons n rest ih =>
      simp only [List.any_cons, ih, isSolid, textContents, forest, Text.isBlankText, List.all_append,
        List.any_append, Bool.not_and]
      ac_rfl

theorem text_solid (m : μ) (data : Chars) : isSolid (.text m data) = !Text.isBlankText data := by
  simp [isSolid, textContent, descendants, stays, isElement]

theorem document_solid (m : μ) (ks : List (Node μ)) : isSolid (.document m ks) = ks.any isSolid := by
  rw [any_solid]
  simp [isSolid, textContent, descendants, stays, isElement]

theorem element_solid (m : μ) (t : String) (a : Attrs) (ks : List (Node μ)) :
    isSolid (.element m t a ks) = (staysBlankTag t || ks.any isSolid) := by
  rw [any_solid]
  simp only [isSolid, textContent, descendants, List.any_cons, stays, isElement, tag, Bool.true_and]
  ac_rfl

theorem descendants_kids (n : Node μ) : n.descendants = forest n.kids := by
  cases n <;> simp only [descendants, kids, forest]

def isContainer : Node μ → Bool
  | .element .. => true
  | .document .. => true
  | _ => false

theorem container_solid (n : Node μ) (container : n.isContainer) :
    n.isSolid = (staysBlankTag n.tag || n.kids.any isSolid) := by
  cases n with
  | element m t a ks => exact element_solid m t a ks
  | document m ks => exact document_solid m ks
  | text | comment => cases container

def marks (ks : List (Node μ)) : List μ := (forest ks).map mark

theorem marks_cons (n : Node μ) (rest : List (Node μ)) :
    marks (n :: rest) = n.mark :: (marks n.kids ++ marks rest) := by
  rw [marks, marks, marks, ← descendants_kids, forest, List.map_cons, List.map_append]

theorem marks_single (n : Node μ) : marks [n] = n.mark :: marks n.kids := by
  rw [marks_cons]
  exact congrArg _ (List.append_nil _)

mutual

theorem map_marks_solid (f : μ → ν) (n : Node μ) : (n.mapMarks f).isSolid = n.isSolid := by
  cases n with
  | text m data => rw [mapMarks, text_solid, text_solid]
  | comment m data => rfl
  | element m t a ks => rw [mapMarks, element_solid, element_solid, map_all_marks_solid f ks]
  | document m ks => rw [mapMarks, document_solid, document_solid, map_all_marks_solid f ks]

theorem map_all_marks_solid (f : μ → ν) (ks : List (Node μ)) :
    (mapAllMarks f ks).any isSolid = ks.any isSolid := by
  cases ks with
  | nil => rfl
  | cons n rest =>
      rw [mapAllMarks, List.any_cons, List.any_cons, map_marks_solid f n, map_all_marks_solid f rest]

end

theorem map_marks_element (f : μ → ν) (n : Node μ) : (n.mapMarks f).isElement = n.isElement := by
  cases n <;> rfl

-- What the table holds of a node once it is settled.
def sighted (n : Node ι) : Sight ι := if n.isComment then [] else [(n.mark, n.isSolid)]

-- Nodes that are told apart by their marks, from one another and from those in a table.
def Fresh (ks : List (Node ι)) (sight : Sight ι) : Prop :=
  (marks ks).Nodup ∧ ∀ entry ∈ sight, entry.1 ∉ marks ks

theorem sighted_marks (ks : List (Node ι)) : ∀ entry ∈ ks.flatMap sighted, entry.1 ∈ marks ks := by
  induction ks with
  | nil => simp
  | cons n rest ih =>
      intro entry member
      rw [marks_cons]
      rcases List.mem_append.mp member with here | later
      · have same : entry.1 = n.mark := by
          unfold sighted at here
          split at here
          · cases here
          · rw [List.mem_singleton.mp here]
        exact List.mem_cons.mpr (.inl same)
      · exact List.mem_cons_of_mem _ (List.mem_append_right _ (ih entry later))

theorem fresh_tail (n : Node ι) (rest : List (Node ι)) (sight : Sight ι) (fresh : Fresh (n :: rest) sight) :
    Fresh rest sight := by
  obtain ⟨once, apart⟩ := fresh
  rw [marks_cons] at once apart
  refine ⟨(List.nodup_append.mp (List.nodup_cons.mp once).2).2.1, ?_⟩
  intro entry member inside
  exact apart entry member (List.mem_cons_of_mem _ (List.mem_append_right _ inside))

-- The nodes on the right have been settled when this one is looked at, and are in the table.
theorem fresh_head (n : Node ι) (rest : List (Node ι)) (sight : Sight ι) (fresh : Fresh (n :: rest) sight) :
    Fresh [n] (rest.flatMap sighted ++ sight) := by
  obtain ⟨once, apart⟩ := fresh
  have split : marks (n :: rest) = marks [n] ++ marks rest := by rw [marks_cons, marks_single, List.cons_append]
  rw [split] at once apart
  obtain ⟨inside, -, disjoint⟩ := List.nodup_append.mp once
  refine ⟨inside, ?_⟩
  intro entry member here
  rcases List.mem_append.mp member with right | before
  · exact disjoint entry.1 here entry.1 (sighted_marks rest entry right) rfl
  · exact apart entry before (List.mem_append_left _ here)

theorem fresh_kids (n : Node ι) (sight : Sight ι) (fresh : Fresh [n] sight) :
    Fresh n.kids sight ∧ ∀ entry ∈ sight, entry.1 ≠ n.mark := by
  obtain ⟨once, apart⟩ := fresh
  rw [marks_single] at once apart
  refine ⟨⟨(List.nodup_cons.mp once).2, ?_⟩, ?_⟩
  · intro entry member inside
    exact apart entry member (List.mem_cons_of_mem _ inside)
  · intro entry member same
    exact apart entry member (List.mem_cons.mpr (.inl same))

variable [DecidableEq ι]

-- What the stack comes to: a child is done with, everything below it included, before the one on its
-- left is looked at.
mutual

def settle (n : Node ι) (found : BlankSearch ι) : BlankSearch ι :=
  match n with
  | .text i data => { found with sight := found.sight.put i (!(Text.strip data).isEmpty) }
  | .comment _ _ => found
  | .element i t a ks => BlankSearch.leave (.element i t a ks) (settleAll ks found)
  | .document i ks => BlankSearch.leave (.document i ks) (settleAll ks found)

def settleAll (ks : List (Node ι)) (found : BlankSearch ι) : BlankSearch ι :=
  match ks with
  | [] => found
  | n :: rest => settle n (settleAll rest found)

end

mutual

theorem run_enter (n : Node ι) (stack : List (Visit ι)) (found : BlankSearch ι) :
    BlankSearch.run (.enter n :: stack) found = BlankSearch.run stack (settle n found) := by
  cases n with
  | text i data => rw [BlankSearch.run, settle]
  | comment i data => rw [BlankSearch.run, settle]
  | element i t a ks => rw [BlankSearch.run, settle, run_enter_all ks, BlankSearch.run]
  | document i ks => rw [BlankSearch.run, settle, run_enter_all ks, BlankSearch.run]

theorem run_enter_all (ks : List (Node ι)) (stack : List (Visit ι)) (found : BlankSearch ι) :
    BlankSearch.run (Visit.enterAll ks ++ stack) found = BlankSearch.run stack (settleAll ks found) := by
  cases ks with
  | nil => rfl
  | cons n rest => rw [Visit.enterAll_cons, run_enter_all rest, run_enter n, settleAll]

end

theorem erase_absent (i : ι) (table : Sight ι) (absent : ∀ entry ∈ table, entry.1 ≠ i) :
    Sight.erase i table = table := by
  rw [Sight.erase, List.filter_eq_self]
  intro entry member
  simpa using absent entry member

theorem take_sighted (n : Node ι) (table : Sight ι) (absent : ∀ entry ∈ table, entry.1 ≠ n.mark) :
    ((sighted n ++ table).lookup n.mark).getD false = n.isSolid ∧
      Sight.erase n.mark (sighted n ++ table) = table := by
  have kept := erase_absent n.mark table absent
  by_cases silent : n.isComment
  · have hidden : n.isSolid = false := by
      cases n with
      | comment m data => rfl
      | text | element | document => cases silent
    have missing : table.lookup n.mark = none := by
      rw [List.lookup_eq_none_iff]
      intro entry member
      simpa using (absent entry member).symm
    simp [sighted, silent, hidden, missing, kept]
  · have shown : sighted n ++ table = (n.mark, n.isSolid) :: table := by
      rw [sighted, if_neg silent, List.singleton_append]
    rw [shown]
    constructor
    · rw [List.lookup_cons_self, Option.getD_some]
    · rw [Sight.erase] at kept ⊢
      rw [List.filter_cons_of_neg (by simp), kept]

theorem take_all_sighted (ks : List (Node ι)) (sight : Sight ι) (fresh : Fresh ks sight) :
    Sight.takeAll ks (ks.flatMap sighted ++ sight) = (ks.any isSolid, sight) := by
  induction ks with
  | nil => rfl
  | cons n rest ih =>
      have absent := (fresh_kids n _ (fresh_head n rest sight fresh)).2
      obtain ⟨seen, left⟩ := take_sighted n _ absent
      rw [List.flatMap_cons, List.append_assoc, Sight.takeAll, left, seen,
        ih (fresh_tail n rest sight fresh), List.any_cons]

-- What a search has come to once some nodes are settled.
structure Settled (ks : List (Node ι)) (found after : BlankSearch ι) : Prop where
  sight : after.sight = ks.flatMap sighted ++ found.sight
  blank : ∀ i, i ∈ after.blank ↔
    i ∈ found.blank ∨ ∃ e ∈ forest ks, e.isElement ∧ e.isBlank ∧ e.mark = i

theorem leave_settled (n : Node ι) (container : n.isContainer) (found inside : BlankSearch ι)
    (fresh : Fresh [n] found.sight) (settled : Settled n.kids found inside) :
    Settled [n] found (BlankSearch.leave n inside) := by
  obtain ⟨kids, absent⟩ := fresh_kids n found.sight fresh
  have taken := take_all_sighted n.kids found.sight kids
  rw [← settled.sight] at taken
  have left : BlankSearch.leave n inside =
      { blank := if n.isElement && !n.isSolid then n.mark :: inside.blank else inside.blank
        sight := Sight.put n.mark n.isSolid found.sight } := by
    rw [container_solid n container, BlankSearch.leave, taken]
  rw [left]
  constructor
  · have spoken : n.isComment = false := by
      cases n with
      | comment => cases container
      | text | element | document => rfl
    simp [Sight.put, erase_absent n.mark found.sight absent, sighted, spoken]
  · intro i
    have below : forest [n] = n :: forest n.kids := by
      rw [forest, forest, List.append_nil, descendants_kids]
    rw [below]
    simp only [List.mem_cons, or_and_right, exists_or, exists_eq_left]
    rw [or_left_comm, ← settled.blank i]
    by_cases blank : n.isElement ∧ n.isBlank
    · obtain ⟨element, empty⟩ := blank
      have silent : n.isSolid = false := by simpa [element_blank n element] using empty
      simp [element, silent, empty, eq_comm (a := i)]
    · have solid : (n.isElement && !n.isSolid) = false := by
        by_cases element : n.isElement
        · simpa [element, element_blank n element] using blank
        · simp [element]
      simp [solid, blank, ← and_assoc]

mutual

theorem settle_settled (n : Node ι) (found : BlankSearch ι) (fresh : Fresh [n] found.sight) :
    Settled [n] found (settle n found) := by
  cases n with
  | text i data =>
      have absent := (fresh_kids _ found.sight fresh).2
      rw [settle]
      constructor
      · simp [Sight.put, erase_absent i found.sight absent, sighted, isComment, text_solid, mark,
          Text.strip_empty]
      · simp [forest, descendants, isElement]
  | comment i data =>
      rw [settle]
      constructor
      · simp [sighted, isComment]
      · simp [forest, descendants, isElement]
  | element i t a ks =>
      rw [settle]
      exact leave_settled _ rfl found _ fresh (settle_all_settled ks found (fresh_kids _ found.sight fresh).1)
  | document i ks =>
      rw [settle]
      exact leave_settled _ rfl found _ fresh (settle_all_settled ks found (fresh_kids _ found.sight fresh).1)

theorem settle_all_settled (ks : List (Node ι)) (found : BlankSearch ι) (fresh : Fresh ks found.sight) :
    Settled ks found (settleAll ks found) := by
  cases ks with
  | nil =>
      rw [settleAll]
      constructor <;> simp [forest]
  | cons n rest =>
      have right := settle_all_settled rest found (fresh_tail n rest found.sight fresh)
      have head := fresh_head n rest found.sight fresh
      rw [← right.sight] at head
      have here := settle_settled n (settleAll rest found) head
      rw [settleAll]
      constructor
      · rw [here.sight, right.sight]
        simp
      · intro i
        rw [here.blank, right.blank]
        have split : forest (n :: rest) = forest [n] ++ forest rest := by simp [forest]
        rw [split]
        simp only [List.mem_append, or_and_right, exists_or]
        rw [or_assoc, or_comm (a := ∃ e, e ∈ forest rest ∧ _)]

end

theorem blank_elements_iff (root : Node ι) (once : (marks [root]).Nodup) (i : ι) :
    i ∈ blankElements root ↔ ∃ e ∈ root :: root.descendants, e.isElement ∧ e.isBlank ∧ e.mark = i := by
  have settled := (settle_settled root {} ⟨once, by simp⟩).blank i
  rw [blankElements, run_enter, BlankSearch.run, settled]
  simp [forest]

-- Every element of the tree has it noted on itself whether it is blank.
mutual

def Flagged : Marked → Prop
  | .element m t a ks => m.blank = !isSolid (.element m t a ks) ∧ FlaggedAll ks
  | .document _ ks => FlaggedAll ks
  | .text _ _ => True
  | .comment _ _ => True

def FlaggedAll : List Marked → Prop
  | [] => True
  | n :: rest => Flagged n ∧ FlaggedAll rest

end

mutual

theorem mark_blank_flags (n : Marked) :
    (markBlank n).2 = n.isSolid ∧ (markBlank n).1.isSolid = n.isSolid ∧ Flagged (markBlank n).1 := by
  cases n with
  | text m data => exact ⟨(text_solid m data).symm, rfl, trivial⟩
  | comment m data => exact ⟨rfl, rfl, trivial⟩
  | element m t a ks =>
      obtain ⟨seen, same, flagged⟩ := mark_all_blank_flags ks
      simp only [markBlank, Flagged, element_solid, seen, same, flagged, and_self]
  | document m ks =>
      obtain ⟨seen, same, flagged⟩ := mark_all_blank_flags ks
      simp only [markBlank, Flagged, document_solid, seen, same, flagged, and_self]

theorem mark_all_blank_flags (ks : List Marked) :
    (markAllBlank ks).2 = ks.any isSolid ∧ (markAllBlank ks).1.any isSolid = ks.any isSolid ∧
      FlaggedAll (markAllBlank ks).1 := by
  cases ks with
  | nil => exact ⟨rfl, rfl, trivial⟩
  | cons n rest =>
      obtain ⟨seen, same, flagged⟩ := mark_blank_flags n
      obtain ⟨others, kept, flags⟩ := mark_all_blank_flags rest
      simp only [markAllBlank, List.any_cons, FlaggedAll, seen, same, flagged, others, kept, flags, and_self]

end

theorem hand_out_flags (markers : List Chars) (ks : List Marked) :
    (ListMarker.handOut markers ks).any isSolid = ks.any isSolid ∧
      (FlaggedAll ks → FlaggedAll (ListMarker.handOut markers ks)) := by
  fun_induction ListMarker.handOut markers ks with
  | case1 marker markers m a ks rest ih =>
      simp only [List.any_cons, element_solid, ih.1, true_and, FlaggedAll, Flagged]
      exact fun flagged => ⟨flagged.1, ih.2 flagged.2⟩
  | case2 markers n rest _ ih =>
      simp only [List.any_cons, ih.1, true_and, FlaggedAll]
      exact fun flagged => ⟨flagged.1, ih.2 flagged.2⟩
  | case3 => exact ⟨rfl, id⟩

mutual

theorem marker_flags (o : Options) (n : Marked) :
    (ListMarker.mark o n).isSolid = n.isSolid ∧ (Flagged n → Flagged (ListMarker.mark o n)) := by
  cases n with
  | text m data => exact ⟨rfl, id⟩
  | comment m data => exact ⟨rfl, id⟩
  | document m ks =>
      obtain ⟨same, flags⟩ := markers_flags o ks
      simp only [ListMarker.mark, document_solid, same, Flagged, true_and]
      exact flags
  | element m t a ks =>
      obtain ⟨same, flags⟩ := markers_flags o ks
      obtain ⟨kept, noted⟩ := hand_out_flags (ListMarker.ofList o (.element m t a ks)) (ListMarker.markAll o ks)
      rw [ListMarker.mark]
      split
      · simp only [element_solid, kept, same, Flagged, true_and]
        exact fun flagged => ⟨flagged.1, noted (flags flagged.2)⟩
      · simp only [element_solid, same, Flagged, true_and]
        exact fun flagged => ⟨flagged.1, flags flagged.2⟩

theorem markers_flags (o : Options) (ks : List Marked) :
    (ListMarker.markAll o ks).any isSolid = ks.any isSolid ∧
      (FlaggedAll ks → FlaggedAll (ListMarker.markAll o ks)) := by
  cases ks with
  | nil => exact ⟨rfl, id⟩
  | cons n rest =>
      obtain ⟨same, flags⟩ := marker_flags o n
      obtain ⟨others, noted⟩ := markers_flags o rest
      simp only [ListMarker.markAll, List.any_cons, same, others, FlaggedAll, true_and]
      exact fun flagged => ⟨flags flagged.1, noted flagged.2⟩

end

theorem prepared_flags (o : Options) (n : Marked) : Flagged (prepare o n) :=
  (marker_flags o _).2 (mark_blank_flags _).2.2

theorem flagged_hollow (m : Mark) (t : String) (a : Attrs) (ks : List Marked) (flagged : Flagged (.element m t a ks))
    (blank : m.blank = true) : ks.any isSolid = false := by
  rw [flagged.1, element_solid, Bool.not_eq_true', Bool.or_eq_false_iff] at blank
  exact blank.2

mutual

theorem within_flagged (path : List Step) (n : Marked) (flagged : Flagged n) :
    ∀ site ∈ Site.within path n, site.node.isElement → site.node.mark.blank = site.node.isBlank := by
  cases n with
  | text m data => simp [Site.within, isElement]
  | comment m data => simp [Site.within, isElement]
  | element m t a ks =>
      intro site member element
      rcases List.mem_cons.mp member with rfl | below
      · rw [element_blank _ element]
        exact flagged.1
      · exact among_flagged _ path [] ks flagged.2 site below element
  | document m ks =>
      intro site member element
      rcases List.mem_cons.mp member with rfl | below
      · cases element
      · exact among_flagged _ path [] ks flagged site below element

theorem among_flagged (head : Head) (path : List Step) (before ks : List Marked) (flagged : FlaggedAll ks) :
    ∀ site ∈ Site.among head path before ks, site.node.isElement →
      site.node.mark.blank = site.node.isBlank := by
  cases ks with
  | nil => simp [Site.among]
  | cons n rest =>
      intro site member element
      rcases List.mem_append.mp member with here | later
      · exact within_flagged _ n flagged.1 site here element
      · exact among_flagged head path _ rest flagged.2 site later element

end

mutual

theorem flagged_below (n : Marked) (flagged : Flagged n) : ∀ below ∈ n :: n.descendants, Flagged below := by
  intro below member
  rcases List.mem_cons.mp member with rfl | inside
  · exact flagged
  · cases n with
    | text | comment => cases inside
    | element m t a ks => exact flagged_forest ks flagged.2 below inside
    | document m ks => exact flagged_forest ks flagged below inside

theorem flagged_forest (ks : List Marked) (flagged : FlaggedAll ks) : ∀ below ∈ forest ks, Flagged below := by
  intro below member
  cases ks with
  | nil => cases member
  | cons n rest =>
      rw [forest, ← List.cons_append, List.mem_append] at member
      rcases member with here | later
      · exact flagged_below n flagged.1 below here
      · exact flagged_forest rest flagged.2 below later

end

theorem blank_passes_agree (root : Node ι) (once : ((root :: root.descendants).map mark).Nodup) :
    (∀ i, i ∈ blankElements root ↔ ∃ e ∈ root :: root.descendants, e.isElement ∧ e.isBlank ∧ e.mark = i) ∧
    (∀ e ∈ root :: root.descendants, e.isElement →
      ∀ (table : RuleTable) (o : Options) (site : Site) (f : ι → Mark), site.node = e.mapMarks f →
        table.find site o (decide (e.mark ∈ blankElements root)) = table.find site o site.node.isBlank) ∧
    ∀ (table : RuleTable) (o : Options) (path : List Step) (top : Marked),
      ∀ site ∈ Site.within path (prepare o top), site.node.isElement →
        table.find site o site.node.mark.blank = table.find site o site.node.isBlank := by
  have apart : (marks [root]).Nodup := by simpa [marks, forest] using once
  refine ⟨blank_elements_iff root apart, ?_, ?_⟩
  · intro e member element table o site f same
    have solid : site.node.isBlank = e.isBlank := by
      rw [element_blank e element, same, element_blank _ (by rwa [map_marks_element]), map_marks_solid]
    have found : decide (e.mark ∈ blankElements root) = e.isBlank := by
      rw [Bool.eq_iff_iff, decide_eq_true_iff, blank_elements_iff root apart]
      constructor
      · rintro ⟨other, listed, -, blank, marked⟩
        rwa [← List.inj_on_of_nodup_map once listed member marked]
      · exact fun blank => ⟨e, member, element, blank, rfl⟩
    rw [found, solid]
  · intro table o path top site member element
    rw [within_flagged path _ (prepared_flags o top) site member element]

-- A quote that holds a rule and an empty word: only the word is blank.
def quotedRule : Node Nat :=
  .document 0 [.element 1 "blockquote" []
    [.element 2 "hr" [] [], .element 3 "em" [] [.text 4 [' '], .comment 5 ['x']]]]

theorem quoted_word_blank : ((quotedRule :: quotedRule.descendants).map mark).Nodup ∧
    3 ∈ blankElements quotedRule ∧ 1 ∉ blankElements quotedRule := by
  have once : ((quotedRule :: quotedRule.descendants).map mark).Nodup := by decide
  have agree := (blank_passes_agree quotedRule once).1
  exact ⟨once, (agree 3).mpr (by decide), fun found => absurd ((agree 1).mp found) (by decide)⟩

end Downmark.Node
