import Downmark.Proofs.Marks
/-!
Preparing a tree only notes something on its nodes. Main statements: without what is noted on them, a tree and
the prepared tree are the same, and a node that knows its container still does.
-/

set_option autoImplicit false

namespace Downmark

open Node

-- What of a mark is not changed by preparing a tree.
structure Mark.Unnoted {ν : Type} (f : Mark → ν) : Prop where
  shown : ∀ (m : Mark) (shown : Option Chars), f { m with shown } = f m
  blank : ∀ (m : Mark) (blank : Bool), f { m with blank } = f m
  marker : ∀ (m : Mark) (marker : Option Chars), f { m with marker } = f m

section

variable {ν : Type} (f : Mark → ν)

mutual

theorem fill_unnoted (unnoted : ∀ (m : Mark) (shown : Option Chars), f { m with shown } = f m) (keep : Bool)
    (n : Marked) (texts : List Chars) : (Whitespace.fill keep n texts).1.mapMarks f = n.mapMarks f := by
  cases n with
  | text m data =>
      cases texts with
      | nil => rfl
      | cons s rest => exact congrArg (fun mark => Node.text mark data) (unnoted m (some s))
  | comment m data | document m ks => rfl
  | element m t a ks =>
      have below := fill_all_unnoted unnoted keep ks texts
      rw [Whitespace.fill]
      split
      · rfl
      · rw [mapMarks, mapMarks, below]

theorem fill_all_unnoted (unnoted : ∀ (m : Mark) (shown : Option Chars), f { m with shown } = f m) (keep : Bool)
    (ks : List Marked) (texts : List Chars) :
    mapAllMarks f (Whitespace.fillAll keep ks texts).1 = mapAllMarks f ks := by
  cases ks with
  | nil => rfl
  | cons n rest =>
      rw [Whitespace.fillAll, mapAllMarks, mapAllMarks, fill_unnoted unnoted keep n texts,
        fill_all_unnoted unnoted keep rest _]

end

theorem collapse_unnoted (unnoted : ∀ (m : Mark) (shown : Option Chars), f { m with shown } = f m) (keep : Bool)
    (n : Marked) : (Whitespace.collapse keep n).mapMarks f = n.mapMarks f := by
  cases n with
  | text m data | comment m data => rfl
  | document m ks => rw [Whitespace.collapse, mapMarks, mapMarks, fill_all_unnoted f unnoted]
  | element m t a ks =>
      unfold Whitespace.collapse
      dsimp only
      split
      · rfl
      · rw [mapMarks, mapMarks, fill_all_unnoted f unnoted]

mutual

theorem mark_blank_unnoted (unnoted : ∀ (m : Mark) (blank : Bool), f { m with blank } = f m) (n : Marked) :
    (markBlank n).1.mapMarks f = n.mapMarks f := by
  cases n with
  | text m data | comment m data => rfl
  | document m ks => rw [markBlank, mapMarks, mapMarks, mark_all_blank_unnoted unnoted ks]
  | element m t a ks => rw [markBlank, mapMarks, mapMarks, mark_all_blank_unnoted unnoted ks, unnoted]

theorem mark_all_blank_unnoted (unnoted : ∀ (m : Mark) (blank : Bool), f { m with blank } = f m) (ks : List Marked) :
    mapAllMarks f (markAllBlank ks).1 = mapAllMarks f ks := by
  cases ks with
  | nil => rfl
  | cons n rest =>
      rw [markAllBlank, mapAllMarks, mapAllMarks, mark_blank_unnoted unnoted n,
        mark_all_blank_unnoted unnoted rest]

end

theorem hand_out_unnoted (unnoted : ∀ (m : Mark) (marker : Option Chars), f { m with marker } = f m)
    (markers : List Chars) (ks : List Marked) : mapAllMarks f (ListMarker.handOut markers ks) = mapAllMarks f ks := by
  fun_induction ListMarker.handOut markers ks with
  | case1 marker markers m a ks rest ih => rw [mapAllMarks, mapAllMarks, mapMarks, mapMarks, unnoted, ih]
  | case2 markers n rest _ ih => rw [mapAllMarks, mapAllMarks, ih]
  | case3 => rfl

mutual

theorem mark_unnoted (unnoted : ∀ (m : Mark) (marker : Option Chars), f { m with marker } = f m) (o : Options)
    (n : Marked) : (ListMarker.mark o n).mapMarks f = n.mapMarks f := by
  cases n with
  | text m data | comment m data => rfl
  | document m ks => rw [ListMarker.mark, mapMarks, mapMarks, mark_all_unnoted unnoted o ks]
  | element m t a ks =>
      have below := mark_all_unnoted unnoted o ks
      rw [ListMarker.mark, mapMarks, mapMarks]
      split
      · rw [hand_out_unnoted f unnoted, below]
      · rw [below]

theorem mark_all_unnoted (unnoted : ∀ (m : Mark) (marker : Option Chars), f { m with marker } = f m) (o : Options)
    (ks : List Marked) : mapAllMarks f (ListMarker.markAll o ks) = mapAllMarks f ks := by
  cases ks with
  | nil => rfl
  | cons n rest => rw [ListMarker.markAll, mapAllMarks, mapAllMarks, mark_unnoted unnoted o n,
        mark_all_unnoted unnoted o rest]

end

theorem prepare_unnoted (unnoted : Mark.Unnoted f) (o : Options) (n : Marked) :
    (prepare o n).mapMarks f = n.mapMarks f := by
  rw [prepare, mark_unnoted f unnoted.marker, mark_blank_unnoted f unnoted.blank, collapse_unnoted f unnoted.shown]

end

theorem bare_unnoted : Mark.Unnoted fun _ => () := ⟨fun _ _ => rfl, fun _ _ => rfl, fun _ _ => rfl⟩

theorem prepare_bare (o : Options) (n : Marked) : bare (prepare o n) = bare n :=
  prepare_unnoted _ bare_unnoted o n

theorem prepare_adopted (o : Options) (n : Marked) : (prepare o n).mapMarks Mark.adopted = n.mapMarks Mark.adopted :=
  prepare_unnoted _ ⟨fun _ _ => rfl, fun _ _ => rfl, fun _ _ => rfl⟩ o n

end Downmark
