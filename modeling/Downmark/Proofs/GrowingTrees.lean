import Downmark.Html.Builder
/-!
Trees that are built from tokens only grow. What is closed stays as it is, at its place among the children of what is
around it, whatever comes after. Main statement: the children of the finished document fit to every state on the way.
-/

set_option autoImplicit false

namespace Downmark.Html

/-- The children so far of the innermost open element, or of the document. -/
def kidsSoFar (top : List Tree) : List OpenElement → List Tree
  | [] => top.reverse
  | inner :: _ => inner.kids.reverse

/-- Whether the innermost open element has some children in the end, in a document with some children: every open
element is the one behind the children so far of what is around it. -/
def Stands (top : List Tree) : List OpenElement → List Tree → List Tree → Prop
  | [], whole, inside => inside = whole
  | inner :: outer, whole, inside => ∃ around later, Stands top outer whole around ∧
      around = kidsSoFar top outer ++ .element () inner.tag inner.attrs inside :: later

theorem stands_unique (top : List Tree) (opened : List OpenElement) (whole inside inside' : List Tree)
    (stands : Stands top opened whole inside) (stands' : Stands top opened whole inside') : inside = inside' := by
  induction opened generalizing inside inside' with
  | nil => exact stands.trans stands'.symm
  | cons inner outer ih =>
      obtain ⟨around, later, below, rfl⟩ := stands
      obtain ⟨around', later', below', rfl⟩ := stands'
      have same := List.append_cancel_left (ih _ _ below below')
      exact (Node.element.inj (List.cons.inj same).1).2.2.2

namespace Builder

variable (b : Builder) (whole : List Tree)

def kids : List Tree := kidsSoFar b.top b.opened

/-- The data of a text node that ends here. -/
def settled (s : Chars) : Chars := if b.keepsSpace then s else shrink s

/-- What the finished document still may be, given its children: those so far come first, and text that has not ended is
part of the next one. -/
def Grows : Prop := ∃ inside later, Stands b.top b.opened whole inside ∧ inside = b.kids ++ later ∧
  ∀ s, b.pending = some s → ∃ more after, later = .text () (b.settled (s ++ more)) :: after

theorem add_kids (n : Tree) : (b.add n).kids = b.kids ++ [n] := by
  unfold add kids
  split
  · rename_i none
    rw [none]
    simp [kidsSoFar]
  · rename_i inner outer opened
    rw [opened]
    simp [kidsSoFar]

theorem add_stands (n : Tree) (inside : List Tree) :
    Stands (b.add n).top (b.add n).opened whole inside ↔ Stands b.top b.opened whole inside := by
  unfold add
  split
  · rename_i none
    rw [none]
    rfl
  · rename_i inner outer opened
    rw [opened]
    rfl

theorem add_pending (n : Tree) : (b.add n).pending = b.pending := by
  unfold add
  split <;> rfl

theorem add_opened (n : Tree) : (b.add n).opened.length = b.opened.length := by
  unfold add
  split
  · rfl
  · rename_i inner outer opened
    rw [opened]
    rfl

theorem add_owed (n : Tree) : (b.add n).owed = b.owed := by
  unfold add
  split <;> rfl

theorem grows_add (n : Tree) (quiet : b.pending = none) (grows : (b.add n).Grows whole) : b.Grows whole := by
  obtain ⟨inside, later, stands, parts, -⟩ := grows
  rw [add_kids, List.append_assoc] at parts
  refine ⟨inside, n :: later, (add_stands b whole n inside).mp stands, parts, fun s pending => ?_⟩
  rw [quiet] at pending
  cases pending

theorem finish_with_some (make : Chars → Option Tree) (s : Chars) (n : Tree) (pending : b.pending = some s)
    (made : make (b.settled s) = some n) : b.finishWith make = { b with pending := none }.add n := by
  obtain ⟨opened, top, held, owed⟩ := b
  obtain rfl : held = some s := pending
  unfold settled at made
  unfold finishWith
  dsimp only
  rw [made]

theorem finish_text_some (s : Chars) (pending : b.pending = some s) :
    b.finishText = { b with pending := none }.add (.text () (b.settled s)) :=
  finish_with_some b _ s _ pending rfl

theorem finish_text_quiet (quiet : b.pending = none) : b.finishText = b := by
  rw [finishText, finishWith, quiet]

theorem finish_text_pending : b.finishText.pending = none := by
  cases pending : b.pending with
  | none => rwa [finish_text_quiet b pending]
  | some s => rw [finish_text_some b s pending, add_pending]

theorem grows_finish_text (grows : b.finishText.Grows whole) : b.Grows whole := by
  cases pending : b.pending with
  | none => rwa [finish_text_quiet b pending] at grows
  | some s =>
      rw [finish_text_some b s pending] at grows
      obtain ⟨inside, later, stands, parts, -⟩ := grows
      rw [add_kids, List.append_assoc] at parts
      refine ⟨inside, .text () (b.settled s) :: later, (add_stands { b with pending := none } whole _ inside).mp stands,
        parts, fun t held => ?_⟩
      obtain rfl := Option.some.inj (pending.symm.trans held)
      exact ⟨[], later, by rw [List.append_nil]⟩

theorem grows_text (s : Chars) (grows : (b.text s).Grows whole) : b.Grows whole := by
  obtain ⟨inside, later, stands, parts, held⟩ := grows
  refine ⟨inside, later, stands, parts, fun t pending => ?_⟩
  obtain ⟨more, after, first⟩ := held _ rfl
  rw [pending, Option.getD_some, List.append_assoc] at first
  exact ⟨s ++ more, after, first⟩

theorem close_inner_pending : b.closeInner.pending = b.pending := by
  unfold closeInner
  split
  · rfl
  · exact add_pending _ _

theorem grows_close_inner (quiet : b.pending = none) (grows : b.closeInner.Grows whole) : b.Grows whole := by
  unfold closeInner at grows
  split at grows
  · exact grows
  · rename_i inner outer opened
    obtain ⟨around, later, stands, parts, -⟩ := grows
    rw [add_kids, List.append_assoc] at parts
    have stands := (add_stands _ whole _ around).mp stands
    refine ⟨inner.kids.reverse, [], ?_, ?_, fun s pending => ?_⟩
    · rw [opened]
      exact ⟨around, later, stands, parts⟩
    · rw [kids, opened, List.append_nil]
      rfl
    · rw [quiet] at pending
      cases pending

theorem grows_close_up_to (tag : String) (fuel : Nat) (quiet : b.pending = none)
    (grows : (closeUpTo tag fuel b).Grows whole) : b.Grows whole := by
  induction fuel generalizing b with
  | zero => exact grows
  | succ fuel ih =>
      rw [closeUpTo] at grows
      split at grows
      · exact grows
      · split at grows
        · exact grows_close_inner b whole quiet grows
        · exact grows_close_inner b whole quiet (ih _ ((close_inner_pending b).trans quiet) grows)

theorem grows_close (tag : String) (grows : (b.close tag).Grows whole) : b.Grows whole := by
  unfold close at grows
  refine grows_finish_text b whole ?_
  dsimp only at grows
  split at grows
  · exact grows_close_up_to _ whole tag _ (finish_text_pending b) grows
  · exact grows

theorem grows_end_tag (tag : String) (grows : (b.endTag tag).Grows whole) : b.Grows whole := by
  unfold endTag at grows
  split at grows
  · exact grows
  · exact grows_close b whole tag grows

theorem grows_open (tag : String) (attrs : Attrs)
    (grows : Grows { b.finishText with opened := { tag, attrs } :: b.finishText.opened } whole) : b.Grows whole := by
  obtain ⟨inside, later, ⟨around, after, stands, parts⟩, -⟩ := grows
  refine grows_finish_text b whole ⟨around, _, stands, parts, fun s pending => ?_⟩
  rw [finish_text_pending] at pending
  cases pending

theorem grows_start_tag (tag : String) (attrs : List (String × Chars)) (selfClosed : Bool)
    (grows : (b.startTag tag attrs selfClosed).Grows whole) : b.Grows whole := by
  unfold startTag at grows
  refine grows_open b whole tag (readAttrs tag attrs) ?_
  dsimp only at grows
  split at grows
  · exact grows_end_tag _ whole tag grows
  · split at grows
    · exact grows_close _ whole tag grows
    · exact grows

theorem text_dropped (data : Chars) (quiet : b.pending = none) : { b.text data with pending := none } = b := by
  obtain ⟨opened, top, held, owed⟩ := b
  obtain rfl : held = none := quiet
  rfl

-- The data of a comment or a section becomes a node at once.
theorem grows_finish_with (make : Chars → Option Tree) (made : ∀ s, (make s).isSome = true) (data : Chars)
    (quiet : b.pending = none) (grows : ((b.text data).finishWith make).Grows whole) : b.Grows whole := by
  obtain ⟨n, same⟩ := Option.isSome_iff_exists.mp (made ((b.text data).settled (b.pending.getD [] ++ data)))
  rw [finish_with_some (b.text data) make _ n rfl same, text_dropped b data quiet] at grows
  exact grows_add b whole n quiet grows

theorem grows_token (t : Token) (grows : (b.token t).Grows whole) : b.Grows whole := by
  cases t with
  | text s => exact grows_text b whole s grows
  | startTag tag attrs selfClosed => exact grows_start_tag b whole tag attrs selfClosed grows
  | endTag tag => exact grows_end_tag b whole tag grows
  | declaration => exact grows_finish_text b whole grows
  | comment data | cdata data =>
      refine grows_finish_text b whole ?_
      exact grows_finish_with b.finishText whole _ (fun _ => rfl) data (finish_text_pending b) grows

theorem grows_tokens (ts : List Token) (grows : (ts.foldl token b).Grows whole) : b.Grows whole := by
  induction ts generalizing b with
  | nil => exact grows
  | cons t rest ih => exact grows_token b whole t (ih _ grows)

theorem close_inner_opened : b.closeInner.opened.length = b.opened.length - 1 := by
  unfold closeInner
  split
  · rename_i none
    rw [none]
    rfl
  · rename_i inner outer opened
    rw [opened]
    exact add_opened _ _

theorem grows_close_all (es : List OpenElement) (quiet : b.pending = none) (all : b.opened.length ≤ es.length) :
    b.Grows (es.foldl (fun b _ => b.closeInner) b).top.reverse := by
  induction es generalizing b with
  | nil =>
      have none : b.opened = [] := List.length_eq_zero_iff.mp (Nat.le_zero.mp all)
      refine ⟨b.top.reverse, [], ?_, ?_, fun s pending => ?_⟩
      · rw [none]
        rfl
      · rw [kids, none, List.append_nil]
        rfl
      · rw [quiet] at pending
        cases pending
  | cons e rest ih =>
      refine grows_close_inner b _ quiet (ih b.closeInner ((close_inner_pending b).trans quiet) ?_)
      rw [close_inner_opened]
      exact Nat.sub_le_of_le_add all

theorem finish_grows (finished : b.finish = .document () whole) : b.Grows whole := by
  have grows := grows_close_all b.finishText b.finishText.opened (finish_text_pending b) (Nat.le_refl _)
  have same : (b.finishText.opened.foldl (fun b _ => b.closeInner) b.finishText).top.reverse = whole :=
    (Node.document.inj finished).2
  rw [same] at grows
  exact grows_finish_text b whole grows

end Builder

end Downmark.Html
