import Downmark.Proofs.PreparedShape
import Downmark.CommonMark.Code
/-!
Trees without their comments. Main statements: preparing a tree and taking its comments away may be done in
either order, and what is read off a node does not depend on the comments below it.
-/

set_option autoImplicit false

namespace Downmark

namespace Node

variable {μ ν : Type}

mutual

-- A root that is a comment stays.
def uncommented : Node μ → Node μ
  | .text m data => .text m data
  | .comment m data => .comment m data
  | .element m t a ks => .element m t a (uncommentedAll ks)
  | .document m ks => .document m (uncommentedAll ks)

def uncommentedAll : List (Node μ) → List (Node μ)
  | [] => []
  | n :: rest => if n.isComment then uncommentedAll rest else uncommented n :: uncommentedAll rest

end

theorem uncommented_comment (m : μ) (data : Chars) (rest : List (Node μ)) :
    uncommentedAll (.comment m data :: rest) = uncommentedAll rest := by
  rw [uncommentedAll]
  rfl

theorem uncommented_cons (n : Node μ) (rest : List (Node μ)) (kept : n.isComment = false) :
    uncommentedAll (n :: rest) = uncommented n :: uncommentedAll rest := by
  rw [uncommentedAll, if_neg (by simp [kept])]

theorem comment_or_kept (n : Node μ) : (∃ m data, n = .comment m data) ∨ n.isComment = false := by
  cases n with
  | comment m data => exact .inl ⟨m, data, rfl⟩
  | text | element | document => exact .inr rfl

theorem uncommented_map (ks : List (Node μ)) :
    uncommentedAll ks = (ks.filter fun n => !n.isComment).map uncommented := by
  induction ks with
  | nil => rfl
  | cons n rest ih =>
      rcases comment_or_kept n with ⟨m, data, rfl⟩ | kept
      · rw [uncommented_comment, ih]
        rfl
      · rw [uncommented_cons n rest kept, ih, List.filter_cons_of_pos (by simp [kept]), List.map_cons]

theorem uncommented_append (ks others : List (Node μ)) :
    uncommentedAll (ks ++ others) = uncommentedAll ks ++ uncommentedAll others := by
  simp only [uncommented_map, List.filter_append, List.map_append]

theorem uncommented_reverse (ks : List (Node μ)) : uncommentedAll ks.reverse = (uncommentedAll ks).reverse := by
  simp only [uncommented_map, List.filter_reverse, List.map_reverse]

section

variable (n : Node μ)

@[simp]
theorem uncommented_mark : n.uncommented.mark = n.mark := by cases n <;> rfl

@[simp]
theorem uncommented_tag : n.uncommented.tag = n.tag := by cases n <;> rfl

@[simp]
theorem uncommented_attrs : n.uncommented.attrs = n.attrs := by cases n <;> rfl

@[simp]
theorem uncommented_named (name : String) : n.uncommented.isNamed name = n.isNamed name := by cases n <;> rfl

@[simp]
theorem uncommented_is_element : n.uncommented.isElement = n.isElement := by cases n <;> rfl

@[simp]
theorem uncommented_is_comment : n.uncommented.isComment = n.isComment := by cases n <;> rfl

@[simp]
theorem uncommented_kind : n.uncommented.kind = n.kind := by cases n <;> rfl

@[simp]
theorem uncommented_block : n.uncommented.isBlock = n.isBlock := by rw [isBlock, uncommented_tag, isBlock]

@[simp]
theorem uncommented_attr (name : String) : n.uncommented.attr name = n.attr name := by
  rw [attr, attr?, uncommented_attrs, attr, attr?]

theorem uncommented_kids : n.uncommented.kids = uncommentedAll n.kids := by cases n <;> rfl

end

-- What no comment has is counted, found and seen all the same.
section

variable (p : Node μ → Bool) (same : ∀ n, p n.uncommented = p n) (never : ∀ n, n.isComment = true → p n = false)

include same never

theorem uncommented_filter (ks : List (Node μ)) :
    (uncommentedAll ks).filter p = (ks.filter p).map uncommented := by
  have kept : p ∘ uncommented = p := funext same
  rw [uncommented_map, List.filter_map, kept, List.filter_filter]
  refine congrArg _ (List.filter_congr fun n _ => ?_)
  cases comment : n.isComment with
  | true => simp [never n comment]
  | false => simp

theorem uncommented_any (ks : List (Node μ)) : (uncommentedAll ks).any p = ks.any p := by
  have kept : p ∘ uncommented = p := funext same
  rw [uncommented_map, List.any_map, kept, List.any_filter]
  refine congrArg (fun p => ks.any p) (funext fun n => ?_)
  cases comment : n.isComment with
  | true => simp [never n comment]
  | false => simp

theorem uncommented_count (ks : List (Node μ)) : (uncommentedAll ks).countP p = ks.countP p := by
  rw [List.countP_eq_length_filter, uncommented_filter p same never, List.length_map, List.countP_eq_length_filter]

end

theorem comment_unnamed (name : String) (n : Node μ) (comment : n.isComment = true) : n.isNamed name = false := by
  cases n with
  | comment m data => rfl
  | text | element | document => cases comment

theorem uncommented_elements (ks : List (Node μ)) : (uncommentedAll ks).any isElement = ks.any isElement := by
  refine uncommented_any isElement uncommented_is_element (fun n comment => ?_) ks
  cases n with
  | comment m data => rfl
  | text | element | document => cases comment

theorem uncommented_items (ks : List (Node μ)) :
    ListMarker.countItems (uncommentedAll ks) = ListMarker.countItems ks :=
  uncommented_count _ (fun n => uncommented_named n "li") (comment_unnamed "li") ks

mutual

theorem uncommented_text (n : Node μ) : n.uncommented.textContent = n.textContent := by
  cases n with
  | text m data | comment m data => rfl
  | element m t a ks | document m ks => exact uncommented_texts ks

theorem uncommented_texts (ks : List (Node μ)) : textContents (uncommentedAll ks) = textContents ks := by
  cases ks with
  | nil => rfl
  | cons n rest =>
      rcases comment_or_kept n with ⟨m, data, rfl⟩ | kept
      · rw [uncommented_comment, uncommented_texts rest]
        rfl
      · rw [uncommented_cons n rest kept, textContents, textContents, uncommented_text n, uncommented_texts rest]

end

mutual

theorem uncommented_descendants (n : Node μ) :
    n.uncommented.descendants = (n.descendants.filter fun below => !below.isComment).map uncommented := by
  cases n with
  | text m data | comment m data => rfl
  | element m t a ks | document m ks => exact uncommented_forest ks

theorem uncommented_forest (ks : List (Node μ)) :
    forest (uncommentedAll ks) = ((forest ks).filter fun below => !below.isComment).map uncommented := by
  cases ks with
  | nil => rfl
  | cons n rest =>
      rcases comment_or_kept n with ⟨m, data, rfl⟩ | kept
      · rw [uncommented_comment, uncommented_forest rest]
        rfl
      · rw [uncommented_cons n rest kept, forest, forest, uncommented_descendants n, uncommented_forest rest,
          List.filter_cons_of_pos (by simp [kept]), List.filter_append, List.map_cons, List.map_append]

end

theorem no_comments_below (n : Node μ) : ∀ below ∈ n.uncommented.descendants, below.isComment = false := by
  rw [uncommented_descendants, List.forall_mem_map]
  intro below member
  rw [uncommented_is_comment]
  simpa using (List.mem_filter.mp member).2

theorem uncommented_find (name : String) (n : Node μ) :
    n.uncommented.find? name = (n.find? name).map uncommented := by
  have named : isNamed name ∘ uncommented = isNamed (μ := μ) name := funext fun n => uncommented_named n name
  rw [find?, find?, uncommented_descendants, List.find?_map, named, List.find?_filter]
  refine congrArg _ (congrArg (fun p => n.descendants.find? p) (funext fun below => ?_))
  cases below with
  | comment m data => rfl
  | text | element | document => simp [isComment]

theorem uncommented_significant (ks : List (Node μ)) :
    significant (uncommentedAll ks) = (significant ks).map uncommented := by
  refine uncommented_filter _ (fun n => ?_) (fun n comment => ?_) ks
  · cases n <;> rfl
  · cases n with
    | comment m data => rfl
    | text | element | document => cases comment

@[simp]
theorem uncommented_code_block (n : Node μ) : Code.isBlock n.uncommented = Code.isBlock n := by
  unfold Code.isBlock
  rw [uncommented_named, uncommented_kids, uncommented_significant]
  cases significant n.kids with
  | nil => rfl
  | cons first rest =>
      cases rest with
      | nil => simp
      | cons => rfl

theorem uncommented_block_text (n : Node μ) : Code.blockText n.uncommented = Code.blockText n := by
  unfold Code.blockText Code.codeElement
  rw [uncommented_find]
  cases n.find? "code" with
  | none => rfl
  | some code => exact congrArg (fun text => Except.ok (Code.dropFinalNewlines text)) (uncommented_text code)

theorem uncommented_language (n : Node μ) : Code.language n.uncommented = Code.language n := by
  have named (n : Node μ) : Code.elementLanguage? n.uncommented = Code.elementLanguage? n := by
    rw [Code.elementLanguage?, Code.elementLanguage?, uncommented_attr, uncommented_attr]
  unfold Code.language Code.codeElement
  rw [uncommented_find]
  cases n.find? "code" with
  | none => rfl
  | some code =>
      change Except.ok (((Code.elementLanguage? code.uncommented).orElse fun _ =>
        Code.elementLanguage? n.uncommented).getD []) = _
      rw [named, named]
      rfl

theorem map_marks_comment (f : μ → ν) (n : Node μ) : (n.mapMarks f).isComment = n.isComment := by cases n <;> rfl

theorem same_kind (n n' : Node μ) (same : n.bare = n'.bare) : n.isComment = n'.isComment := by
  rw [← map_marks_comment (fun _ => ()), ← map_marks_comment (fun _ => ()) n']
  exact congrArg isComment same

mutual

theorem uncommented_marks (f : μ → ν) (n : Node μ) : n.uncommented.mapMarks f = (n.mapMarks f).uncommented := by
  cases n with
  | text m data | comment m data => rfl
  | element m t a ks | document m ks => simp only [uncommented, mapMarks, uncommented_all_marks f ks]

theorem uncommented_all_marks (f : μ → ν) (ks : List (Node μ)) :
    mapAllMarks f (uncommentedAll ks) = uncommentedAll (mapAllMarks f ks) := by
  cases ks with
  | nil => rfl
  | cons n rest =>
      rcases comment_or_kept n with ⟨m, data, rfl⟩ | kept
      · rw [uncommented_comment, uncommented_all_marks f rest, mapAllMarks, mapMarks, uncommented_comment]
      · rw [uncommented_cons n rest kept, mapAllMarks, mapAllMarks, uncommented_marks f n, uncommented_all_marks f rest,
          uncommented_cons _ _ ((map_marks_comment f n).trans kept)]

end

end Node

open Node

namespace Whitespace

mutual

theorem uncommented_events {μ : Type} (keep : Bool) (n : Node μ) : events keep n.uncommented = events keep n := by
  cases n with
  | text | comment | document => rfl
  | element m t a ks => rw [uncommented, events, events, uncommented_events_of keep ks]

theorem uncommented_events_of {μ : Type} (keep : Bool) (ks : List (Node μ)) :
    eventsOf keep (uncommentedAll ks) = eventsOf keep ks := by
  cases ks with
  | nil => rfl
  | cons n rest =>
      rcases comment_or_kept n with ⟨m, data, rfl⟩ | kept
      · rw [uncommented_comment, uncommented_events_of keep rest]
        rfl
      · rw [uncommented_cons n rest kept, eventsOf, eventsOf, uncommented_events keep n, uncommented_events_of keep rest]

end

mutual

theorem uncommented_fill (keep : Bool) (n : Marked) (texts : List Chars) :
    fill keep n.uncommented texts = ((fill keep n texts).1.uncommented, (fill keep n texts).2) := by
  cases n with
  | text m data => cases texts <;> rfl
  | comment | document => rfl
  | element m t a ks =>
      rw [uncommented, fill, fill, uncommented_fill_all keep ks texts]
      split
      · rfl
      · rfl

theorem uncommented_fill_all (keep : Bool) (ks : List Marked) (texts : List Chars) :
    fillAll keep (uncommentedAll ks) texts =
      (uncommentedAll (fillAll keep ks texts).1, (fillAll keep ks texts).2) := by
  cases ks with
  | nil => rfl
  | cons n rest =>
      rcases comment_or_kept n with ⟨m, data, rfl⟩ | kept
      · rw [uncommented_comment, uncommented_fill_all keep rest texts, fillAll, fill, uncommented_comment]
      · have still := (same_kind _ n (fill_unnoted _ bare_unnoted.shown keep n texts)).trans kept
        rw [uncommented_cons n rest kept, fillAll, fillAll, uncommented_fill keep n]
        dsimp only
        rw [uncommented_fill_all keep rest, uncommented_cons _ _ still]

end

theorem uncommented_collapse (keep : Bool) (n : Marked) :
    collapse keep n.uncommented = (collapse keep n).uncommented := by
  cases n with
  | text | comment => rfl
  | document m ks => rw [uncommented, collapse, collapse, uncommented_events_of, uncommented_fill_all, uncommented]
  | element m t a ks =>
      rw [uncommented]
      unfold collapse
      dsimp only
      rw [uncommented_events_of, uncommented_fill_all]
      split
      · rfl
      · rfl

end Whitespace

namespace Node

mutual

theorem uncommented_blank (n : Marked) : markBlank n.uncommented = ((markBlank n).1.uncommented, (markBlank n).2) := by
  cases n with
  | text | comment => rfl
  | document m ks | element m t a ks =>
      rw [uncommented, markBlank, markBlank, uncommented_all_blank ks]
      rfl

theorem uncommented_all_blank (ks : List Marked) :
    markAllBlank (uncommentedAll ks) = (uncommentedAll (markAllBlank ks).1, (markAllBlank ks).2) := by
  cases ks with
  | nil => rfl
  | cons n rest =>
      rcases comment_or_kept n with ⟨m, data, rfl⟩ | kept
      · rw [uncommented_comment, uncommented_all_blank rest, markAllBlank, markBlank, uncommented_comment]
        rfl
      · have still := (same_kind _ n (mark_blank_unnoted _ bare_unnoted.blank n)).trans kept
        rw [uncommented_cons n rest kept, markAllBlank, markAllBlank, uncommented_blank n, uncommented_all_blank rest,
          uncommented_cons _ _ still]

end

end Node

namespace ListMarker

theorem uncommented_list {μ : Type} (o : Options) (n : Node μ) : ofList o n.uncommented = ofList o n := by
  rw [ofList, uncommented_kids, uncommented_items, uncommented_tag, uncommented_attrs, ofList]

theorem uncommented_endless_list {μ : Type} (attrs : Attrs) (ks : List (Node μ)) :
    isEndless attrs (uncommentedAll ks) = isEndless attrs ks := by
  rw [isEndless, uncommented_items, isEndless]

-- A marker is handed to an item, and no item is a comment.
theorem uncommented_hand_out (markers : List Chars) (ks : List Marked) :
    handOut markers (uncommentedAll ks) = uncommentedAll (handOut markers ks) := by
  fun_induction handOut markers ks with
  | case1 marker markers m a ks rest ih =>
      rw [uncommented_cons _ rest rfl, uncommented, handOut, ih, uncommented_cons _ _ rfl, uncommented]
  | case2 markers n rest other ih =>
      rcases comment_or_kept n with ⟨m, data, rfl⟩ | kept
      · rw [uncommented_comment, uncommented_comment, ih]
      · rw [uncommented_cons n rest kept, uncommented_cons n _ kept, ← ih]
        refine handOut.eq_2 markers n.uncommented _ fun marker later m' a' ks' more same => ?_
        cases n with
        | text | comment | document => cases same
        | element m t a ks =>
            cases same
            exact other marker later _ _ _ more rfl
  | case3 => simp [uncommentedAll, handOut]

mutual

theorem uncommented_markers (o : Options) (n : Marked) : mark o n.uncommented = (mark o n).uncommented := by
  cases n with
  | text | comment => rfl
  | document m ks => rw [uncommented, mark, mark, uncommented_all_markers o ks, uncommented]
  | element m t a ks =>
      have list := uncommented_list o (.element m t a ks)
      rw [uncommented] at list ⊢
      rw [mark, mark, uncommented_all_markers o ks, list, uncommented]
      split
      · rw [uncommented_hand_out]
      · rfl

theorem uncommented_all_markers (o : Options) (ks : List Marked) :
    markAll o (uncommentedAll ks) = uncommentedAll (markAll o ks) := by
  cases ks with
  | nil => rfl
  | cons n rest =>
      rcases comment_or_kept n with ⟨m, data, rfl⟩ | kept
      · rw [uncommented_comment, uncommented_all_markers o rest, markAll, mark, uncommented_comment]
      · have still := (same_kind _ n (mark_unnoted _ bare_unnoted.marker o n)).trans kept
        rw [uncommented_cons n rest kept, markAll, markAll, uncommented_markers o n, uncommented_all_markers o rest,
          uncommented_cons _ _ still]

end

end ListMarker

theorem uncommented_prepare (o : Options) (n : Marked) : prepare o n.uncommented = (prepare o n).uncommented := by
  rw [prepare, Whitespace.uncommented_collapse, uncommented_blank, ListMarker.uncommented_markers, prepare]

end Downmark
