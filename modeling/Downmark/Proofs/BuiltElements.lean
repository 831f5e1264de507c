import Mathlib.Data.List.Nodup
import Downmark.Html.Token
import Downmark.Node.Classes
import Downmark.Proofs.GrowingTrees
import Downmark.Proofs.TokenSteps
/-!
What the tags and the text of an element do to a tree that is being built. Main statements: the tags of an element with
its children in between add the element, and nothing but that fits to a document which has it at this place.
-/

set_option autoImplicit false

namespace Downmark

theorem put_fresh (key : String) (value : Chars) (entries : Attrs) (fresh : key ∉ entries.map Prod.fst) :
    putEntryBy (· == ·) key value entries = entries ++ [(key, value)] := by
  induction entries with
  | nil => rfl
  | cons entry rest ih =>
      obtain ⟨other, fresh⟩ : key ≠ entry.1 ∧ key ∉ rest.map Prod.fst := by simpa using fresh
      have different : (entry.1 == key) = false := beq_false_of_ne (Ne.symm other)
      rw [putEntryBy, different, if_neg Bool.false_ne_true, ih fresh]
      rfl

theorem pairs_kept (pairs : Attrs) (distinct : (pairs.map Prod.fst).Nodup) : ofPairs pairs = pairs := by
  have from_ (entries : Attrs) (distinct : ((entries ++ pairs).map Prod.fst).Nodup) :
      pairs.foldl (fun entries pair => putEntryBy (· == ·) pair.1 pair.2 entries) entries = entries ++ pairs := by
    induction pairs generalizing entries with
    | nil => exact (List.append_nil entries).symm
    | cons pair rest ih =>
        have whole : entries ++ pair :: rest = (entries ++ [pair]) ++ rest := by simp
        have fresh : pair.1 ∉ entries.map Prod.fst := by
          rw [List.map_append, List.nodup_append] at distinct
          exact fun member => distinct.2.2 _ member _ List.mem_cons_self rfl
        rw [List.foldl_cons, put_fresh pair.1 pair.2 entries fresh, whole]
        exact ih (List.Nodup.of_cons ‹_›) _ (whole ▸ distinct)
  exact from_ [] distinct

namespace Html

/-- Attributes with names of their own. Where a list of words is expected, words are one space apart. -/
structure IsAttrs (tag : String) (attrs : Attrs) : Prop where
  distinct : (attrs.map Prod.fst).Nodup
  single : ∀ a ∈ attrs, Builder.holdsWords tag a.1 = true → Text.oneSpaced a.2 = a.2

namespace Builder

theorem read_attrs_same (tag : String) (attrs : Attrs) (sound : IsAttrs tag attrs) : readAttrs tag attrs = attrs := by
  rw [readAttrs, pairs_kept attrs sound.distinct]
  refine (List.map_congr_left fun a member => ?_).trans (List.map_id attrs)
  split
  · rename_i words
    rw [sound.single a member words]
    rfl
  · rfl

variable (b : Builder)

/-! Tags -/

def opens (tag : String) (attrs : Attrs) : Builder :=
  { b.finishText with opened := { tag, attrs } :: b.finishText.opened }

theorem start_tag_opens (tag : String) (attrs : Attrs) (sound : IsAttrs tag attrs)
    (filled : voidNames.contains tag = false) : b.startTag tag attrs false = b.opens tag attrs := by
  rw [startTag, read_attrs_same tag attrs sound, filled]
  rfl

theorem finish_text_owed : b.finishText.owed = b.owed := by
  cases pending : b.pending with
  | none => rw [finish_text_quiet b pending]
  | some s => rw [finish_text_some b s pending, add_owed]

theorem close_innermost (inner : OpenElement) (outer : List OpenElement)
    (opened : b.finishText.opened = inner :: outer) : b.close inner.tag = b.finishText.closeInner := by
  rw [close, opened, List.any_cons, beq_self_eq_true, Bool.true_or, if_pos rfl, List.length_cons, closeUpTo, opened]
  exact if_pos (beq_self_eq_true inner.tag)

theorem end_tag_closes (inner : OpenElement) (outer : List OpenElement) (opened : b.finishText.opened = inner :: outer)
    (settled : b.owed.contains inner.tag = false) : b.endTag inner.tag = b.finishText.closeInner := by
  rw [endTag, settled, if_neg Bool.false_ne_true, close_innermost b inner outer opened]

theorem void_added (tag : String) (attrs : Attrs) (sound : IsAttrs tag attrs) (void : voidNames.contains tag = true) :
    b.startTag tag attrs false = { b.finishText.add (.element () tag attrs []) with owed := tag :: b.owed } := by
  have quiet : (b.opens tag attrs).finishText = b.opens tag attrs :=
    finish_text_quiet _ (finish_text_pending b)
  have opened : (b.opens tag attrs).finishText.opened = { tag, attrs } :: b.finishText.opened := by rw [quiet]; rfl
  have closed := close_innermost (b.opens tag attrs) { tag, attrs } _ opened
  have added : (b.opens tag attrs).closeInner = b.finishText.add (.element () tag attrs []) := rfl
  rw [quiet, added] at closed
  rw [startTag, read_attrs_same tag attrs sound, void]
  change { (b.opens tag attrs).close tag with owed := tag :: b.finishText.owed } = _
  rw [closed, finish_text_owed]

/-! Whole nodes -/

/-- A node of a tree put into the tree that is being built. -/
def put : Tree → Builder
  | .text _ data => b.text data
  | n => b.finishText.add n

def putAll (ns : List Tree) : Builder := ns.foldl put b

theorem put_element (n : Tree) (element : n.isElement = true) : b.put n = b.finishText.add n := by
  cases n with
  | element => rfl
  | text | comment | document => cases element

-- What end tags are owed does not matter for anything else.
theorem add_owing (n : Tree) (owed : List String) : add { b with owed } n = { b.add n with owed } := by
  obtain ⟨opened, top, pending, owes⟩ := b
  cases opened <;> rfl

theorem put_owing (n : Tree) (owed : List String) : put { b with owed } n = { b.put n with owed } := by
  have finished : finishText { b with owed } = { b.finishText with owed } := by
    obtain ⟨opened, top, pending, owes⟩ := b
    cases pending with
    | none => rfl
    | some s => exact add_owing { opened, top, owed := owes } _ owed
  cases n with
  | text m data => rfl
  | comment | element | document =>
      change add (finishText { b with owed }) _ = { b.finishText.add _ with owed }
      rw [finished, add_owing]

theorem put_all_owing (ns : List Tree) (owed : List String) :
    putAll { b with owed } ns = { b.putAll ns with owed } := by
  induction ns generalizing b with
  | nil => rfl
  | cons n rest ih =>
      change putAll (put { b with owed } n) rest = { (b.put n).putAll rest with owed }
      rw [put_owing, ih]

end Builder

/-- A node that is not lost or changed on its own: an element, or text with something else than white space. -/
inductive Lasts : Tree → Prop where
  | text (data : Chars) (inked : data.any (fun c => !Builder.isPlainSpace c) = true) : Lasts (.text () data)
  | element (t : String) (a : Attrs) (ks : List Tree) : Lasts (.element () t a ks)

/-- Nodes of which no two texts stand side by side. -/
def Apart : List Tree → Prop
  | [] => True
  | n :: rest => (n.isElement = true ∨ ∀ m ∈ rest.head?, m.isElement = true) ∧ Apart rest

namespace Builder

variable (b : Builder)

theorem settled_inked (data : Chars) (inked : data.any (fun c => !isPlainSpace c) = true) : b.settled data = data := by
  unfold settled shrink
  split
  · rfl
  · rw [if_neg]
    intro all
    obtain ⟨c, member, ink⟩ := List.any_eq_true.mp inked
    rw [List.all_eq_true.mp all c member] at ink
    cases ink

theorem text_finished (data : Chars) (inked : data.any (fun c => !isPlainSpace c) = true) (quiet : b.pending = none) :
    (b.text data).finishText = b.add (.text () data) := by
  have held : (b.text data).pending = some data := by rw [text, quiet]; rfl
  rw [finish_text_some (b.text data) data held, text_dropped b data quiet]
  exact congrArg (fun data => b.add (.text () data)) (settled_inked b data inked)

-- A node may be put where no text waits for its end, or it is no text itself.
theorem put_finished (ns : List Tree) (lasting : ∀ n ∈ ns, Lasts n) (apart : Apart ns)
    (ready : b.pending = none ∨ ∀ n ∈ ns.head?, n.isElement = true) :
    (b.putAll ns).finishText = ns.foldl add b.finishText := by
  induction ns generalizing b with
  | nil => rfl
  | cons n rest ih =>
      obtain ⟨here, others⟩ := List.forall_mem_cons.mp lasting
      change ((b.put n).putAll rest).finishText = rest.foldl add (b.finishText.add n)
      cases here with
      | text data inked =>
          have quiet : b.pending = none := ready.resolve_right fun element => by cases element _ rfl
          have next : ∀ m ∈ rest.head?, m.isElement = true := apart.1.resolve_left (by rintro ⟨⟩)
          rw [ih (b.put (.text () data)) others apart.2 (.inr next), finish_text_quiet b quiet]
          exact congrArg (List.foldl add · rest) (text_finished b data inked quiet)
      | element t a ks =>
          have quiet : (b.put (.element () t a ks)).pending = none := (add_pending _ _).trans (finish_text_pending b)
          rw [ih _ others apart.2 (.inl quiet), finish_text_quiet _ quiet]
          rfl

theorem add_all_opened (ns : List Tree) (inner : OpenElement) (outer : List OpenElement)
    (opened : b.opened = inner :: outer) :
    ns.foldl add b = { b with opened := { inner with kids := ns.reverse ++ inner.kids } :: outer } := by
  induction ns generalizing b inner with
  | nil =>
      obtain ⟨_, top, pending, owed⟩ := b
      cases opened
      rfl
  | cons n rest ih =>
      obtain ⟨_, top, pending, owed⟩ := b
      cases opened
      rw [List.foldl_cons, ih _ { inner with kids := n :: inner.kids } rfl, List.reverse_cons, List.append_assoc]
      rfl

theorem element_closed (c : Builder) (tag : String) (attrs : Attrs) (kids : List Tree) (owed : List String)
    (finished : c.finishText = { b.finishText with opened := { tag, attrs, kids } :: b.finishText.opened, owed })
    (settled : c.owed.contains tag = false) :
    c.endTag tag = { b.put (.element () tag attrs kids.reverse) with owed } := by
  rw [end_tag_closes c { tag, attrs, kids } b.finishText.opened (by rw [finished]) settled, finished]
  exact add_owing b.finishText (.element () tag attrs kids.reverse) owed

/-- An element whose children have been put between its tags. -/
theorem element_built (tag : String) (attrs : Attrs) (ks : List Tree) (lasting : ∀ n ∈ ks, Lasts n) (apart : Apart ks)
    (owed : List String) (settled : owed.contains tag = false) :
    endTag { (b.opens tag attrs).putAll ks with owed } tag = { b.put (.element () tag attrs ks) with owed } := by
  have quiet : (b.opens tag attrs).pending = none := finish_text_pending b
  have finished : finishText { (b.opens tag attrs).putAll ks with owed } =
      { b.finishText with opened := { tag, attrs, kids := ks.reverse } :: b.finishText.opened, owed } := by
    rw [← put_all_owing, put_finished { b.opens tag attrs with owed } ks lasting apart (.inl quiet),
      finish_text_quiet { b.opens tag attrs with owed } quiet,
      add_all_opened _ ks { tag, attrs } b.finishText.opened rfl, List.append_nil]
    rfl
  rw [element_closed b _ tag attrs ks.reverse owed finished settled, List.reverse_reverse]

/-- The children that raw text leaves. -/
def rawKids (piece : Chars) : List Tree := if piece.isEmpty then [] else [.text () (b.settled piece)]

theorem raw_built (tag : String) (attrs : Attrs) (piece : Chars) (settled : b.owed.contains tag = false) :
    (pieceOf (b.opens tag attrs) piece).endTag tag =
      { b.put (.element () tag attrs (rawKids (b.opens tag attrs) piece)) with owed := b.owed } := by
  have quiet : (b.opens tag attrs).pending = none := finish_text_pending b
  have owed : (b.opens tag attrs).owed = b.owed := finish_text_owed b
  unfold pieceOf rawKids
  cases piece with
  | nil =>
      refine element_closed b _ tag attrs [] b.owed ?_ (owed ▸ settled)
      change (b.opens tag attrs).finishText = _
      rw [finish_text_quiet _ quiet, ← owed]
      rfl
  | cons c more =>
      refine element_closed b _ tag attrs [.text () ((b.opens tag attrs).settled (c :: more))] b.owed ?_
        (owed ▸ settled)
      have held : ((b.opens tag attrs).text (c :: more)).pending = some (c :: more) := by rw [text, quiet]; rfl
      change ((b.opens tag attrs).text (c :: more)).finishText = _
      rw [finish_text_some _ _ held, text_dropped _ _ quiet, ← owed]
      rfl

/-! What is still to come -/

/-- The text that waits for its end, as the node that it is if it ends here. -/
def held : List Tree :=
  match b.pending with
  | none => []
  | some s => [.text () (b.settled s)]

/-- Whether some nodes come next in a document with some children. -/
def Awaits (ns whole : List Tree) : Prop :=
  ∃ inside later, Stands b.top b.opened whole inside ∧ inside = b.kids ++ b.held ++ ns ++ later

theorem held_quiet (quiet : b.pending = none) : b.held = [] := by rw [held, quiet]

variable (whole : List Tree)

theorem finish_text_kids : b.finishText.kids = b.kids ++ b.held := by
  unfold held
  cases pending : b.pending with
  | none => rw [finish_text_quiet b pending, List.append_nil]
  | some s =>
      rw [finish_text_some b s pending, add_kids]
      rfl

theorem finish_text_stands (inside : List Tree) :
    Stands b.finishText.top b.finishText.opened whole inside ↔ Stands b.top b.opened whole inside := by
  cases pending : b.pending with
  | none => rw [finish_text_quiet b pending]
  | some s =>
      rw [finish_text_some b s pending]
      exact add_stands { b with pending := none } whole _ inside

theorem awaits_put (n : Tree) (rest : List Tree) (lasts : Lasts n)
    (ready : b.pending = none ∨ n.isElement = true) (awaits : b.Awaits (n :: rest) whole) :
    (b.put n).Awaits rest whole := by
  obtain ⟨inside, later, stands, parts⟩ := awaits
  cases lasts with
  | text data inked =>
      have quiet : b.pending = none := ready.resolve_right (by rintro ⟨⟩)
      refine ⟨inside, later, stands, ?_⟩
      have waits : (b.text data).held = [.text () data] := by
        have pending : (b.text data).pending = some data := by rw [text, quiet]; rfl
        rw [held, pending]
        exact congrArg (fun data => [Node.text () data]) (settled_inked _ data inked)
      rw [held_quiet b quiet, List.append_nil] at parts
      change inside = b.kids ++ (b.text data).held ++ rest ++ later
      rw [waits, parts]
      simp
  | element t a ks =>
      refine ⟨inside, later, (add_stands _ whole _ inside).mpr ((finish_text_stands b whole inside).mpr stands), ?_⟩
      have quiet : (b.put (.element () t a ks)).pending = none := (add_pending _ _).trans (finish_text_pending b)
      rw [held_quiet _ quiet, List.append_nil, put_element b _ rfl, add_kids, finish_text_kids, parts]
      simp

theorem awaits_open (tag : String) (attrs : Attrs) (ks rest : List Tree)
    (awaits : b.Awaits (.element () tag attrs ks :: rest) whole) : (b.opens tag attrs).Awaits ks whole := by
  obtain ⟨inside, later, stands, parts⟩ := awaits
  refine ⟨ks, [], ⟨inside, rest ++ later, (finish_text_stands b whole inside).mpr stands, ?_⟩, ?_⟩
  · change inside = b.finishText.kids ++ _
    rw [finish_text_kids, parts]
    simp
  · rw [held_quiet (b.opens tag attrs) (finish_text_pending b)]
    simp [kids, kidsSoFar, opens]

-- Where one element comes next, another one cannot have been added.
theorem awaits_added (n wrong : Tree) (rest : List Tree) (awaits : b.Awaits (n :: rest) whole)
    (grows : (b.finishText.add wrong).Grows whole) : wrong = n := by
  obtain ⟨inside, later, stands, parts⟩ := awaits
  obtain ⟨inside', later', stands', parts', -⟩ := grows
  have stands' := (finish_text_stands b whole inside').mp ((add_stands _ whole wrong inside').mp stands')
  obtain rfl := stands_unique _ _ whole _ _ stands stands'
  rw [add_kids, finish_text_kids, parts, List.append_assoc (b.kids ++ b.held),
    List.append_assoc (b.kids ++ b.held)] at parts'
  exact (List.cons.inj (List.append_cancel_left parts')).1.symm

-- Nor can text have begun that is not the one which is waiting.
theorem awaits_text (n : Tree) (element : n.isElement = true) (rest : List Tree) (awaits : b.Awaits (n :: rest) whole) :
    ¬ (b.text ['<']).Grows whole := by
  rintro ⟨inside', later', stands', parts', begun⟩
  obtain ⟨inside, later, stands, parts⟩ := awaits
  obtain rfl := stands_unique _ _ whole _ _ stands stands'
  obtain ⟨more, after, rfl⟩ := begun _ rfl
  change inside = b.kids ++ _ at parts'
  rw [parts'] at parts
  simp only [List.append_assoc] at parts
  have next := List.append_cancel_left parts
  rw [settled_inked _ _ (by simp [isPlainSpace])] at next
  unfold held at next
  split at next
  · obtain ⟨same, -⟩ := List.cons.inj next
    rw [← same] at element
    cases element
  · rename_i s pending
    rw [pending] at next
    have same : s ++ (['<'] ++ more) = b.settled s := (Node.text.inj (List.cons.inj next).1).2
    have kept : b.settled s = s ∨ '<' ∉ b.settled s := by
      unfold settled shrink
      split
      · exact .inl rfl
      · split
        · right
          split <;> decide
        · exact .inl rfl
    rcases kept with whole | unmarked
    · have long := congrArg List.length (same.trans whole)
      simp at long
    · exact unmarked (same ▸ by simp)

end Builder

end Html

end Downmark
