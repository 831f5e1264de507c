import Mathlib.Data.List.Duplicate
import Mathlib.Data.List.NodupEquivFin
import Downmark.Node.Editable
/-!
Siblings in trees that are edited in place, after any edits: nodes that are built, also around children
of others, children that are appended, put in or taken out with nobody told, containers that are gone,
and looks at siblings in between. Main statement: a look finds the neighbour in the list of children as
it is now, and the looks before it are not seen in what it finds.
-/

set_option autoImplicit false

namespace Downmark

/-- A step in the life of a tree. -/
inductive Edit where
  | plant (draft : Draft)
  | build (content : Content) (ks : List Nat)
  | append (id child : Nat)
  | insert (id : Nat) (place : Int) (child : Nat)
  | take (id : Nat) (place : Int)
  /-- Any other change to a list of children that tells nobody. -/
  | refill (id : Nat) (f : List Nat → List Nat)
  | forget (id : Nat)
  /-- A look at the sibling before or after a node. -/
  | look (id : Nat) (after : Bool)

namespace Edit

/-- The tree after a step, if the step is possible. -/
def apply (e : Editable) : Edit → Option Editable
  | plant draft => (e.plant none 0 draft).map (·.2)
  | build content ks => some (e.build content ks).2
  | append id child => e.appendChild id child
  | insert id place child => e.insertChild id place child
  | take id place => (e.take id place).map (·.2)
  | refill id f => e.edit id f
  | forget id => some (e.forget id)
  | look id after => some (e.sibling id after).2

/-- The tree after some steps; those that are not possible leave it as it is. -/
def run (e : Editable) : List Edit → Editable
  | [] => e
  | edit :: rest => run ((edit.apply e).getD e) rest

def isLook : Edit → Bool
  | look .. => true
  | _ => false

end Edit

theorem rel_bind {α β γ δ : Type} (r : α → β → Prop) (s : γ → δ → Prop) (x : Option α) (y : Option β)
    (f : α → Option γ) (g : β → Option δ) (first : Option.Rel r x y)
    (later : ∀ a b, r a b → Option.Rel s (f a) (g b)) : Option.Rel s (x.bind f) (y.bind g) := by
  cases first with
  | some related => exact later _ _ related
  | none => exact .none

theorem rel_map {α β γ δ : Type} (r : α → β → Prop) (s : γ → δ → Prop) (x : Option α) (y : Option β)
    (f : α → γ) (g : β → δ) (first : Option.Rel r x y) (later : ∀ a b, r a b → s (f a) (g b)) :
    Option.Rel s (x.map f) (y.map g) := by
  cases first with
  | some related => exact .some (later _ _ related)
  | none => exact .none

theorem rel_eq {α : Type} (x y : Option α) (same : Option.Rel Eq x y) : x = y := by
  cases same with
  | some equal => exact congrArg some equal
  | none => rfl

theorem rel_swap {α β : Type} (r : α → β → Prop) (s : β → α → Prop) (x : Option α) (y : Option β)
    (first : Option.Rel r x y) (swap : ∀ a b, r a b → s b a) : Option.Rel s y x := by
  cases first with
  | some related => exact .some (swap _ _ related)
  | none => exact .none

theorem rel_or {α : Type} (r : α → α → Prop) (x y : Option α) (a b : α) (first : Option.Rel r x y)
    (otherwise : r a b) : r (x.getD a) (y.getD b) := by
  cases first with
  | some related => exact related
  | none => exact otherwise

/-- Cells that differ in nothing but the recorded place. -/
structure Cell.Twin (c d : Cell) : Prop where
  content : c.content = d.content
  kids : c.kids = d.kids
  parent : c.parent = d.parent

namespace Editable

/-- Trees that differ in nothing but the recorded places. -/
def Twin (e other : Editable) : Prop := ∀ id, Option.Rel Cell.Twin (e.get? id) (other.get? id)

theorem twin_refl (e : Editable) : Twin e e := by
  intro id
  cases e.get? id with
  | none => exact .none
  | some c => exact .some ⟨rfl, rfl, rfl⟩

theorem twin_symm (e other : Editable) (twin : Twin e other) : Twin other e := fun id =>
  rel_swap _ _ _ _ (twin id) fun _ _ same => ⟨same.content.symm, same.kids.symm, same.parent.symm⟩

section Twins

variable (e other : Editable) (twin : Twin e other)

include twin

-- What is read off a cell without its place is the same in both.
theorem twin_read {α : Type} (f : Cell → α) (blind : ∀ c d, Cell.Twin c d → f c = f d) (id : Nat) :
    (e.get? id).map f = (other.get? id).map f :=
  rel_eq _ _ (rel_map _ _ _ _ f f (twin id) blind)

theorem twin_kids (id : Nat) : e.kids id = other.kids id :=
  congrArg (Option.getD · []) (twin_read e other twin Cell.kids (fun _ _ same => same.kids) id)

theorem twin_parent (id : Nat) : e.parent? id = other.parent? id := by
  have same := twin_read e other twin Cell.parent (fun _ _ same => same.parent) id
  simpa [parent?, Option.bind_map] using congrArg (Option.bind · fun parent => parent) same

theorem twin_container (id : Nat) : e.isContainer id = other.isContainer id := by
  unfold isContainer
  rw [twin_read e other twin Cell.content (fun _ _ same => same.content) id]

theorem twin_size : e.cells.size = other.cells.size := by
  have none_iff : ∀ id, e.cells.size ≤ id ↔ other.cells.size ≤ id := fun id => by
    have same := congrArg Option.isNone (twin_read e other twin (fun _ => ()) (fun _ _ _ => rfl) id)
    rw [← Array.getElem?_eq_none_iff, ← Array.getElem?_eq_none_iff, ← Option.isNone_iff_eq_none,
      ← Option.isNone_iff_eq_none]
    simpa [get?] using Bool.eq_iff_iff.mp same
  exact Nat.le_antisymm ((none_iff _).mpr le_rfl) ((none_iff _).mp le_rfl)

theorem twin_push (c d : Cell) (same : Cell.Twin c d) :
    Twin ⟨e.cells.push c⟩ ⟨other.cells.push d⟩ := by
  intro id
  have size := twin_size e other twin
  simp only [get?, Array.getElem?_push, size]
  split
  · exact .some same
  · exact twin id

theorem twin_update (id : Nat) (f g : Cell → Cell) (blind : ∀ c d, Cell.Twin c d → Cell.Twin (f c) (g d)) :
    Twin (e.update id f) (other.update id g) := by
  intro n
  simp only [get?, update, Array.getElem?_modify]
  split
  · exact rel_map _ _ _ _ f g (twin n) blind
  · exact twin n

theorem twin_attach (parent child place place' : Nat) :
    Twin (e.attach parent child place) (other.attach parent child place') :=
  twin_update e other twin child _ _ fun _ _ same => ⟨same.content, same.kids, rfl⟩

theorem twin_edit (id : Nat) (f : List Nat → List Nat) : Option.Rel Twin (e.edit id f) (other.edit id f) := by
  unfold edit
  rw [twin_container e other twin id]
  split
  · exact .some (twin_update e other twin id _ _ fun _ _ same =>
      ⟨same.content, congrArg f same.kids, same.parent⟩)
  · exact .none

theorem twin_append (id child : Nat) :
    Option.Rel Twin (e.appendChild id child) (other.appendChild id child) :=
  rel_bind _ _ _ _ _ _ (twin_edit e other twin id _) fun a b same => .some (twin_attach a b same id child _ _)

theorem twin_take (id : Nat) (place : Int) :
    Option.Rel Twin ((e.take id place).map (·.2)) ((other.take id place).map (·.2)) := by
  simp only [take, twin_kids e other twin id]
  cases placeIn? place (other.kids id).length with
  | none => exact .none
  | some n =>
      cases found : (other.kids id)[n]? with
      | none => simp [found]
      | some child =>
          simp only [Option.bind_eq_bind, Option.bind_some, found, Option.map_bind]
          exact rel_bind _ _ _ _ _ _ (twin_edit e other twin id _) fun _ _ same => .some same

theorem twin_forget (id : Nat) : Twin (e.forget id) (other.forget id) := by
  intro n
  simp only [get?, forget, Array.getElem?_map]
  refine rel_map _ _ _ _ _ _ (twin n) fun c d same => ?_
  rw [same.parent]
  split
  · exact ⟨same.content, same.kids, rfl⟩
  · exact same

-- A look writes one place.
theorem twin_look (id : Nat) (after : Bool) : Twin (e.sibling id after).2 other := by
  unfold sibling
  split
  · exact twin
  split
  · exact twin
  dsimp only
  split
  · exact twin
  intro n
  simp only [get?, update, Array.getElem?_modify]
  split
  · rw [← Option.map_id_apply (x := other.cells[n]?)]
    exact rel_map _ _ _ _ _ _ (twin n) fun _ _ same => ⟨same.content, same.kids, same.parent⟩
  · exact twin n

end Twins

theorem twin_adopt (ks : List Nat) (parent : Nat) : ∀ (e other : Editable) (place place' : Nat),
    Twin e other → Twin (e.adopt parent place ks) (other.adopt parent place' ks) := by
  induction ks with
  | nil => exact fun _ _ _ _ twin => twin
  | cons child rest ih =>
      intro e other place place' twin
      exact ih _ _ _ _ (twin_attach e other twin parent child place place')

theorem twin_build (e other : Editable) (twin : Twin e other) (content : Content) (ks : List Nat) :
    Twin (e.build content ks).2 (other.build content ks).2 := by
  have pushed : ∀ c, Twin ⟨e.cells.push c⟩ ⟨other.cells.push c⟩ := fun c =>
    twin_push e other twin c c ⟨rfl, rfl, rfl⟩
  simp only [build, twin_size e other twin]
  cases content with
  | text data => exact pushed _
  | comment data => exact pushed _
  | element name attrs => exact twin_adopt ks _ _ _ 0 0 (pushed _)
  | document => exact twin_adopt ks _ _ _ 0 0 (pushed _)

/-- Numbers that were given alike, in trees that are twins. -/
def Numbered {α : Type} (a b : α × Editable) : Prop := a.1 = b.1 ∧ Twin a.2 b.2

mutual

theorem twin_plant (d : Draft) (e other : Editable) (twin : Twin e other) (parent : Option Nat) (place : Nat) :
    Option.Rel Numbered (plant e parent place d) (plant other parent place d) := by
  have size := twin_size e other twin
  have pushed : ∀ c, Twin ⟨e.cells.push c⟩ ⟨other.cells.push c⟩ := fun c =>
    twin_push e other twin c c ⟨rfl, rfl, rfl⟩
  cases d with
  | text data => exact .some ⟨size, pushed _⟩
  | comment data => exact .some ⟨size, pushed _⟩
  | element name attrs ks =>
      simp only [plant, size]
      refine rel_bind _ _ _ _ _ _ (twin_plant_all ks _ _ (pushed _) _ 0) fun a b same => .some ⟨rfl, ?_⟩
      exact twin_update _ _ same.2 _ _ _ fun c d own => ⟨own.content, same.1, own.parent⟩
  | document ks =>
      simp only [plant, size]
      refine rel_bind _ _ _ _ _ _ (twin_plant_all ks _ _ (pushed _) _ 0) fun a b same => .some ⟨rfl, ?_⟩
      exact twin_update _ _ same.2 _ _ _ fun c d own => ⟨own.content, same.1, own.parent⟩
  | stray value => exact .none

theorem twin_plant_all (ds : List Draft) (e other : Editable) (twin : Twin e other) (parent place : Nat) :
    Option.Rel Numbered (plantAll e parent place ds) (plantAll other parent place ds) := by
  cases ds with
  | nil => exact .some ⟨rfl, twin⟩
  | cons d rest =>
      refine rel_bind _ _ _ _ _ _ (twin_plant d e other twin _ place) fun a b same => ?_
      refine rel_bind _ _ _ _ _ _ (twin_plant_all rest _ _ same.2 _ (place + 1)) fun as bs later => ?_
      exact .some ⟨by rw [same.1, later.1], later.2⟩

end

-- A hint is used only if it is right, so that it cannot tell the search for the one place another.
theorem find_place_iff (ks : List Nat) (id hint n : Nat) (once : ks.count id ≤ 1) :
    findPlace ks id hint = some n ↔ ks[n]? = some id := by
  have one : ∀ i j, ks[i]? = some id → ks[j]? = some id → ¬ i < j := fun i j first later before => by
    obtain ⟨inside, stands⟩ := List.getElem?_eq_some_iff.mp first
    obtain ⟨inside', stands'⟩ := List.getElem?_eq_some_iff.mp later
    have twice : List.Duplicate id ks := List.duplicate_iff_exists_distinct_get.mpr
      ⟨⟨i, inside⟩, ⟨j, inside'⟩, before, stands.symm, stands'.symm⟩
    have counted := List.duplicate_iff_two_le_count.mp twice
    omega
  have unique : ∀ i j, ks[i]? = some id → ks[j]? = some id → i = j := fun i j first later =>
    Nat.le_antisymm (Nat.le_of_not_lt (one j i later first)) (Nat.le_of_not_lt (one i j first later))
  unfold findPlace
  split
  · rename_i right
    have stands : ks[hint]? = some id := eq_of_beq right
    exact ⟨fun same => Option.some.inj same ▸ stands, fun there => congrArg some (unique _ _ stands there)⟩
  · rw [List.idxOf?_eq_some_iff]
    constructor
    · rintro ⟨inside, stands, -⟩
      exact List.getElem?_eq_some_iff.mpr ⟨inside, stands⟩
    · intro there
      obtain ⟨inside, stands⟩ := List.getElem?_eq_some_iff.mp there
      refine ⟨inside, stands, fun i before stands' => one i n ?_ there before⟩
      exact List.getElem?_eq_some_iff.mpr ⟨_, stands'⟩

theorem pair_infix_iff (ks : List Nat) (a b : Nat) :
    [a, b] <:+: ks ↔ ∃ n, ks[n]? = some a ∧ ks[n + 1]? = some b := by
  constructor
  · rintro ⟨before, rest, rfl⟩
    exact ⟨before.length, by simp, by simp⟩
  · rintro ⟨n, first, later⟩
    obtain ⟨inside, rfl⟩ := List.getElem?_eq_some_iff.mp first
    obtain ⟨inside', rfl⟩ := List.getElem?_eq_some_iff.mp later
    refine ⟨ks.take n, ks.drop (n + 2), ?_⟩
    rw [List.append_assoc, List.cons_append, List.singleton_append, ← List.drop_eq_getElem_cons inside',
      ← List.drop_eq_getElem_cons inside, List.take_append_drop]

theorem sibling_read (e : Editable) (id : Nat) (after : Bool) : ∃ hint, (e.sibling id after).1 =
    (e.parent? id).bind fun parent => (findPlace (e.kids parent) id hint).bind fun n =>
      if after then (e.kids parent)[n + 1]? else if n == 0 then none else (e.kids parent)[n - 1]? := by
  refine ⟨((e.get? id).map Cell.place).getD 0, ?_⟩
  unfold sibling parent?
  split
  · next gone => rw [gone]; rfl
  · next cell there =>
      rw [there, Option.bind_some, Option.map_some, Option.getD_some]
      split
      · next untold => rw [untold]; rfl
      · next parent told =>
          rw [told, Option.bind_some]
          dsimp only
          split
          · next lost => rw [lost]; rfl
          · next n found => rw [found]; rfl

/-- A look finds the neighbour in the list of children as it is, whatever place was recorded. -/
theorem neighbour_found (e : Editable) (id : Nat) (after : Bool)
    (once : ∀ parent, e.parent? id = some parent → (e.kids parent).count id ≤ 1) (x : Nat) :
    (e.sibling id after).1 = some x ↔
      ∃ parent, e.parent? id = some parent ∧ (if after then [id, x] else [x, id]) <:+: e.kids parent := by
  obtain ⟨hint, read⟩ := sibling_read e id after
  rw [read, Option.bind_eq_some_iff]
  refine exists_congr fun parent => and_congr_right fun told => ?_
  simp only [Option.bind_eq_some_iff, find_place_iff _ _ _ _ (once parent told)]
  cases after with
  | true => exact (pair_infix_iff _ id x).symm
  | false =>
      simp only [Bool.false_eq_true, if_false, pair_infix_iff]
      constructor
      · rintro ⟨n, there, found⟩
        cases n with
        | zero => simp at found
        | succ n => exact ⟨n, by simpa using found, there⟩
      · rintro ⟨n, found, there⟩
        exact ⟨n + 1, there, by simpa using found⟩

end Editable

namespace Edit

open Editable

theorem twin_apply (edit : Edit) (e other : Editable) (twin : Twin e other) :
    Option.Rel Twin (edit.apply e) (edit.apply other) := by
  cases edit with
  | plant draft => exact rel_map _ _ _ _ _ _ (twin_plant draft e other twin none 0) fun _ _ same => same.2
  | build content ks => exact .some (twin_build e other twin content ks)
  | append id child => exact twin_append e other twin id child
  | insert id place child => exact twin_edit e other twin id fun ks => insertAt (clamp place ks.length) child ks
  | take id place => exact twin_take e other twin id place
  | refill id f => exact twin_edit e other twin id f
  | forget id => exact .some (twin_forget e other twin id)
  | look id after =>
      have seen := twin_look other e (twin_symm e other twin) id after
      exact .some (twin_look e _ (twin_symm _ _ seen) id after)

theorem twin_step (edit : Edit) (e other : Editable) (twin : Twin e other) :
    Twin ((edit.apply e).getD e) ((edit.apply other).getD other) :=
  rel_or _ _ _ _ _ (twin_apply edit e other twin) twin

-- Looks on the left have no counterpart on the right.
theorem twin_run (history : List Edit) : ∀ e other : Editable, Twin e other →
    Twin (run e history) (run other (history.filter fun edit => !edit.isLook)) := by
  induction history with
  | nil => exact fun _ _ twin => twin
  | cons edit rest ih =>
      intro e other twin
      cases looks : edit.isLook with
      | false =>
          rw [List.filter_cons_of_pos (by simp [looks])]
          exact ih _ _ (twin_step edit e other twin)
      | true =>
          rw [List.filter_cons_of_neg (by simp [looks])]
          cases edit with
          | look id after => exact ih _ _ (twin_look e other twin id after)
          | _ => cases looks

/-- After any edits, a node that does not stand twice in the list of its container has as its sibling what
stands next to it in that list, and nothing if it has no container, is not in the list or has no
neighbour there. The looks among the edits make no difference. -/
theorem sibling_current (history : List Edit) (id : Nat) (after : Bool)
    (once : ∀ parent, (run {} history).parent? id = some parent →
      ((run {} history).kids parent).count id ≤ 1) :
    (∀ x, ((run {} history).sibling id after).1 = some x ↔
      ∃ parent, (run {} history).parent? id = some parent ∧
        (if after then [id, x] else [x, id]) <:+: (run {} history).kids parent) ∧
    ∀ others : List Edit,
      (others.filter fun edit => !edit.isLook) = (history.filter fun edit => !edit.isLook) →
        ((run {} others).sibling id after).1 = ((run {} history).sibling id after).1 := by
  refine ⟨neighbour_found _ id after once, fun others same => ?_⟩
  have ours := twin_run history {} {} (twin_refl {})
  have theirs := twin_run others {} {} (twin_refl {})
  rw [same] at theirs
  have parent : (run {} others).parent? id = (run {} history).parent? id :=
    (twin_parent _ _ theirs id).trans (twin_parent _ _ ours id).symm
  have kids : ∀ n, (run {} others).kids n = (run {} history).kids n := fun n =>
    (twin_kids _ _ theirs n).trans (twin_kids _ _ ours n).symm
  refine Option.ext fun x => ?_
  rw [neighbour_found _ id after once, neighbour_found _ id after (by simpa only [parent, kids] using once)]
  simp only [parent, kids]

/-- A paragraph of two texts, a third one put before them with nobody told, and the first one looked at
and taken out. -/
def reshuffled : List Edit :=
  [build (.text (.str "a")) [], build (.text (.str "b")) [], build (.element (.str "p") []) [0, 1],
    build (.text (.str "x")) [], insert 2 0 3, look 0 false, take 2 1]

theorem sibling_of_reshuffled : ((run {} reshuffled).sibling 1 false).1 = some 3 ∧
    ((run {} (reshuffled ++ [look 0 true, look 1 true])).sibling 1 false).1 = some 3 := by
  have once : ∀ parent, (run {} reshuffled).parent? 1 = some parent →
      ((run {} reshuffled).kids parent).count 1 ≤ 1 := fun parent told => by
    cases (show some 2 = some parent from told)
    exact le_of_eq rfl
  obtain ⟨current, unseen⟩ := sibling_current reshuffled 1 false once
  have before : ((run {} reshuffled).sibling 1 false).1 = some 3 := (current 3).mpr ⟨2, rfl, [], [], rfl⟩
  exact ⟨before, (unseen (reshuffled ++ [look 0 true, look 1 true]) rfl).trans before⟩

end Edit

end Downmark
