import Downmark.Proofs.RenderedTop
import Downmark.Proofs.TableShape
import Downmark.Proofs.Totality
/-!
The rows of a table as sites. Main statement: in a table of rows and sections, the row that decides whether there is
a heading is the first of them; and a table that comes to be rendered has its blank elements noted, and no white
space left in it.
-/

set_option autoImplicit false

namespace Downmark

namespace Site

def kidsAmong (head : Head) (path : List Step) (before : List Marked) : List Marked → List Site
  | [] => []
  | n :: rest => ⟨n, pathTo head path before rest n⟩ :: kidsAmong head path (n :: before) rest

/-- The sites of the children of an element. -/
def kids (site : Site) : List Site :=
  match site.node with
  | .element m t a ks => kidsAmong (.element m t a) site.path [] ks
  | _ => []

theorem kids_nodes (head : Head) (path : List Step) (before ks : List Marked) :
    (kidsAmong head path before ks).map node = ks := by
  induction ks generalizing before with
  | nil => rfl
  | cons n rest ih => rw [kidsAmong, List.map_cons, ih]

theorem step_to (head : Head) (path : List Step) (before after : List Marked) (n : Marked)
    (adopted : n.mark.adopted = true) : pathTo head path before after n = ⟨head, before, after, true⟩ :: path :=
  if_pos adopted

end Site

namespace Gfm

open Node

theorem first_cell (m : Mark) (t : String) (a : Attrs) (path : List Step) (before after : List Marked) (n : Marked)
    (adopted : n.mark.adopted = true) :
    isFirstCell ⟨n, Site.pathTo (.element m t a) path before after n⟩ = !before.any isCell := by
  rw [Site.step_to _ path before after n adopted]
  rfl

/-- The cells of a row as sites. -/
def cellsOf (row : Site) : List Site := row.kids.filter fun site => isCell site.node

/-- The rows in a section, or the row itself. -/
def rowsIn (part : Site) : List Site :=
  (if isSection part.node then part.kids else [part]).filter fun site => site.node.isNamed "tr"

/-- The rows of a table as sites, those in its sections included. -/
def rowsOf (table : Site) : List Site := table.kids.flatMap rowsIn

theorem section_other (n : Marked) (section_ : isSection n = true) (name : String)
    (apart : name ∉ ["thead", "tbody", "tfoot"]) : n.isNamed name = false := by
  simp only [List.mem_cons, List.not_mem_nil, or_false, not_or] at apart
  cases n with
  | element m t a ks =>
      simp only [isSection, isNamed, Bool.or_eq_true, beq_iff_eq, beq_eq_false_iff_ne, ne_eq] at section_ ⊢
      rcases section_ with (rfl | rfl) | rfl
      · exact fun same => apart.1 same.symm
      · exact fun same => apart.2.1 same.symm
      · exact fun same => apart.2.2 same.symm
  | text | comment | document => cases section_

section

variable {text : Mark → Chars → Prop} (head : Head) (path : List Step)

-- Where rows are the only elements, the first of them comes before all that is below.
theorem first_of_rows (before ks : List Marked) (rows : ∀ k ∈ ks, k.Fits (IsRow text) text) (more : List Site) :
    firstRowAmong (Site.among head path before ks ++ more) =
      ((Site.kidsAmong head path before ks).filter fun site => site.node.isNamed "tr").head?.or
        (firstRowAmong more) := by
  induction ks generalizing before with
  | nil => rfl
  | cons n rest ih =>
      rw [List.forall_mem_cons] at rows
      have later := ih (n :: before) rows.2
      rw [Site.among, List.append_assoc, Site.kidsAmong]
      cases n with
      | text m data => simpa [Site.within, firstRowAmong, isNamed] using later
      | comment m data => simpa [Site.within, firstRowAmong, isNamed] using later
      | document m kids => exact rows.1.elim
      | element m t a kids =>
          have row : IsRow text (.element m t a kids) := rows.1
          obtain rfl : t = "tr" := beq_iff_eq.mp row.named
          rfl

theorem first_of_parts (before ks : List Marked) (parts : ∀ k ∈ ks, k.Fits (IsPart text) text) (more : List Site) :
    firstRowAmong (Site.among head path before ks ++ more) =
      ((Site.kidsAmong head path before ks).flatMap rowsIn).head?.or (firstRowAmong more) := by
  induction ks generalizing before with
  | nil => rfl
  | cons n rest ih =>
      rw [List.forall_mem_cons] at parts
      have later := ih (n :: before) parts.2
      rw [Site.among, List.append_assoc, Site.kidsAmong, List.flatMap_cons]
      cases n with
      | text m data => exact later
      | comment m data => exact later
      | document m kids => exact parts.1.elim
      | element m t a kids =>
          have part : IsPart text (.element m t a kids) := parts.1
          rcases part with row | ⟨section_, rows⟩
          · obtain rfl : t = "tr" := beq_iff_eq.mp row.named
            rfl
          · have inside := first_of_rows (.element m t a) (Site.pathTo head path before rest (.element m t a kids)) [] kids
              rows (Site.among head path (.element m t a kids :: before) rest ++ more)
            rw [rowsIn, if_pos section_, Site.within, List.cons_append, firstRowAmong,
              if_neg (Bool.eq_false_iff.mp (section_other _ section_ "table" (by decide))),
              if_neg (Bool.eq_false_iff.mp (section_other _ section_ "tr" (by decide))), inside, later,
              List.head?_append, Option.or_assoc]
            rfl

end

theorem first_row {text : Mark → Chars → Prop} (table : Site) (grid : IsGrid text table.node) :
    firstRow table = (rowsOf table).head? := by
  obtain ⟨n, path⟩ := table
  cases n with
  | element m t a ks =>
      have first := first_of_parts (.element m t a) path [] ks grid.parts []
      rw [List.append_nil] at first
      rw [firstRow, Site.all, Site.within, List.tail_cons, first]
      exact Option.or_none
  | text | comment | document => cases grid.named

end Gfm

namespace Render

open Node Whitespace

variable (table : RuleTable) (o : Options) (keep : Bool)

mutual

theorem visits_flowing (path : List Step) (n : Marked)
    (adopted : ∀ below ∈ n :: n.descendants, below.mark.adopted = true) :
    ∀ site ∈ visits table o path n, path <:+ site.path ∧
      ((∀ step ∈ site.path, isKept keep step.head.tag = false) → site.node ∈ flowing keep n) := by
  intro site member
  cases n with
  | text | comment | document => cases member
  | element m t a ks =>
      rw [visits] at member
      rcases List.mem_cons.mp member with rfl | below
      · exact ⟨List.suffix_rfl, fun _ => List.mem_cons_self⟩
      · split at below
        · obtain ⟨⟨before, after, around⟩, inside⟩ := visits_all_flowing (.element m t a) path [] ks
            (fun below member => adopted below (List.mem_cons_of_mem _ member)) site below
          refine ⟨(List.suffix_cons _ path).trans around, fun open_ => List.mem_cons_of_mem _ ?_⟩
          have unkept : isKept keep t = false := open_ _ (around.subset List.mem_cons_self)
          rw [if_neg (Bool.eq_false_iff.mp unkept)]
          exact inside open_
        · cases below

theorem visits_all_flowing (head : Head) (path : List Step) (before ks : List Marked)
    (adopted : ∀ below ∈ forest ks, below.mark.adopted = true) :
    ∀ site ∈ visitsAll table o head path before ks,
      (∃ before after, ⟨head, before, after, true⟩ :: path <:+ site.path) ∧
      ((∀ step ∈ site.path, isKept keep step.head.tag = false) → site.node ∈ flowingAll keep ks) := by
  intro site member
  cases ks with
  | nil => cases member
  | cons n rest =>
      have here (below : Marked) (member : below ∈ n :: n.descendants) : below.mark.adopted = true :=
        adopted below (List.mem_append_left (forest rest) member)
      rcases List.mem_append.mp member with first | later
      · obtain ⟨around, inside⟩ := visits_flowing _ n here site first
        rw [Site.step_to head path before rest n (here n List.mem_cons_self)] at around
        exact ⟨⟨before, rest, around⟩, fun open_ => List.mem_append_left _ (inside open_)⟩
      · obtain ⟨around, inside⟩ := visits_all_flowing head path (n :: before) rest (fun below member =>
          adopted below (List.mem_append_right (n :: n.descendants) member)) site later
        exact ⟨around, fun open_ => List.mem_append_right _ (inside open_)⟩

end

/-- A tree that knows its containers and has its blank elements noted. -/
structure Sound (n : Marked) : Prop where
  flagged : Flagged n
  adopted : ∀ below ∈ n :: n.descendants, below.mark.adopted = true

theorem sound_below (n below : Marked) (sound : Sound n) (member : below ∈ n :: n.descendants) : Sound below :=
  ⟨flagged_below n sound.flagged below member, fun deeper inside =>
    sound.adopted deeper (inside_below n below member deeper inside)⟩

theorem prepared_sound (o : Options) (n : Marked) (adopted : ∀ below ∈ n :: n.descendants, below.mark.adopted = true) :
    Sound (prepare o n) := by
  refine ⟨prepared_flags o n, fun below member => ?_⟩
  have read (n : Marked) : (∀ below ∈ n :: n.descendants, below.mark.adopted = true) ↔
      ∀ below ∈ n.mapMarks Mark.adopted :: (n.mapMarks Mark.adopted).descendants, below.mark = true := by
    have mark (below : Marked) : (below.mapMarks Mark.adopted).mark = below.mark.adopted := by cases below <;> rfl
    rw [descendants_marks, ← List.map_cons, List.forall_mem_map]
    simp only [mark]
  rw [read, ← prepare_adopted o, ← read] at adopted
  exact adopted below member

theorem of_tree_adopted (tree : Tree) :
    ∀ below ∈ unmark tree :: (unmark tree).descendants, below.mark.adopted = true := by
  intro below member
  rw [unmark, descendants_marks, ← List.map_cons] at member
  obtain ⟨n, -, rfl⟩ := List.mem_map.mp member
  cases n <;> rfl

/-- What is known of a site that comes to be rendered: a table has no white space left in it, unless something around
it keeps its text. -/
structure Laid (site : Site) : Prop where
  sound : Sound site.node
  hushed : (∀ step ∈ site.path, isKept o.preformattedCode step.head.tag = false) →
    Gfm.IsGrid Gfm.White site.node → Gfm.IsGrid Gfm.Hushed site.node

theorem visits_laid (path : List Step) (n : Marked) (sound : Sound n)
    (hushed : Gfm.HushedTables (flowing o.preformattedCode n)) : ∀ site ∈ visits table o path n, Laid o site := by
  intro site member
  have listed := List.mem_map_of_mem (f := Site.node) (visits_within table o path n site member)
  rw [Site.within_nodes] at listed
  exact ⟨sound_below _ _ sound listed, fun open_ => hushed _
    ((visits_flowing table o o.preformattedCode path n sound.adopted site member).2 open_)⟩

theorem visits_all_laid (head : Head) (path : List Step) (n : Marked) (ks : List Marked) (sound : Sound n)
    (inside : ∀ below ∈ forest ks, below ∈ n :: n.descendants)
    (hushed : isKept o.preformattedCode head.tag = false → Gfm.HushedTables (flowingAll o.preformattedCode ks)) :
    ∀ site ∈ visitsAll table o head path [] ks, Laid o site := by
  intro site member
  have listed := List.mem_map_of_mem (f := Site.node) (visits_all_among table o head path [] ks site member)
  rw [Site.among_nodes] at listed
  obtain ⟨⟨before, after, around⟩, flows⟩ := visits_all_flowing table o o.preformattedCode head path [] ks
    (fun below member => sound.adopted below (inside below member)) site member
  exact ⟨sound_below _ _ sound (inside _ listed), fun open_ => hushed (open_ _ (around.subset List.mem_cons_self)) _
    (flows open_)⟩

theorem visited_laid (tree : Tree) : ∀ site ∈ visited table o (Site.ofTree tree), Laid o site := by
  have sound : Sound (prepare o (rootOf (Site.ofTree tree)).node) :=
    prepared_sound o _ fun below inside => of_tree_adopted tree below
      (inside_below _ _ (root_inside (Site.ofTree tree)) below inside)
  obtain ⟨hushed, children⟩ := Gfm.prepare_hushed o (rootOf (Site.ofTree tree)).node
  have same : (prepare o (rootOf (Site.ofTree tree)).node).isElement = (rootOf (Site.ofTree tree)).node.isElement := by
    rw [← map_marks_element Mark.adopted, prepare_adopted, map_marks_element]
  rw [← same] at children
  unfold visited Site.prepared
  generalize rootOf (Site.ofTree tree) = found at sound hushed children
  obtain ⟨n, path⟩ := found
  dsimp only at sound hushed children ⊢
  generalize prepare o n = below at sound hushed children
  cases tree with
  | text | comment | element => exact visits_laid table o path below sound hushed
  | document m ks =>
      cases below with
      | text | comment => exact fun _ member => nomatch member
      | document m' ks' =>
          exact visits_all_laid table o (.document m') path _ ks' sound (fun _ => List.mem_cons_of_mem _) fun _ =>
            children rfl
      | element m' t a ks' =>
          refine visits_all_laid table o (.element m' t a) path _ ks' sound (fun _ => List.mem_cons_of_mem _)
            fun open_ => ?_
          have unkept : isKept o.preformattedCode t = false := open_
          rw [flowing, if_neg (Bool.eq_false_iff.mp unkept)] at hushed
          exact fun n flows => hushed n (List.mem_cons_of_mem _ flows)

end Render

end Downmark
