import Downmark.Proofs.PlainTree
import Downmark.Proofs.Stacked
/-!
Texts of which some characters are hidden. What is hidden is shown as far as it is white space of the kind that
runs are made of, and lost otherwise. Main statement: but for white space at its ends, a text is shown as it is
just if nothing is lost between two characters that are seen.
-/

set_option autoImplicit false

namespace Downmark

structure Glyph where
  char : Char
  hidden : Bool := false
deriving DecidableEq, Repr

namespace Glyph

def chars (gs : List Glyph) : Chars := gs.map Glyph.char

def isSolid (g : Glyph) : Bool := !Whitespace.isCollapsible g.char

def isLost (g : Glyph) : Bool := g.hidden && g.isSolid

def hide (gs : List Glyph) : List Glyph := gs.map fun g => { g with hidden := true }

-- A character that is shown wherever it stands.
def isAnchor (g : Glyph) : Bool := !g.hidden && g.isSolid

def isSeen (g : Glyph) : Bool := !Text.isBlank g.char

def ink (s : Chars) : Chars := s.filter fun c => !Whitespace.isCollapsible c

def anchors (gs : List Glyph) : Chars := chars (gs.filter isAnchor)

def Loses (gs : List Glyph) : Prop :=
  ∃ first lost last : Glyph, List.Sublist [first, lost, last] gs ∧ first.isSeen ∧ lost.isLost ∧ last.isSeen

-- What is shown of the glyphs on one side of some place.
structure Beside (s : Chars) (gs : List Glyph) : Prop where
  inked : ink s = anchors gs
  empty : gs = [] → s = []

-- A stretch of glyphs that has to be shown as it is: nothing of it is lost, and at each of its ends there is
-- nothing more, or a character that no gap can take the place of.
structure Stretch (before during after : List Glyph) : Prop where
  clean : ∀ g ∈ during, g.isLost = false
  opens : before = [] ∨ during.head?.any isAnchor
  closes : after = [] ∨ during.getLast?.any isAnchor

structure Shows (gs : List Glyph) (s : Chars) : Prop where
  inked : ink s = anchors gs
  stretch : ∀ before during after, gs = before ++ during ++ after → Stretch before during after →
    ∃ left right, s = left ++ chars during ++ right ∧ Beside left before ∧ Beside right after

theorem ink_append (s t : Chars) : ink (s ++ t) = ink s ++ ink t := List.filter_append ..

theorem chars_append (gs hs : List Glyph) : chars (gs ++ hs) = chars gs ++ chars hs := List.map_append

theorem anchors_append (gs hs : List Glyph) : anchors (gs ++ hs) = anchors gs ++ anchors hs := by
  rw [anchors, List.filter_append, chars_append, anchors, anchors]

theorem ink_empty (s : Chars) (blank : ∀ c ∈ s, Whitespace.isCollapsible c) : ink s = [] := by
  rw [ink, List.filter_eq_nil_iff]
  intro c member
  simp [blank c member]

theorem anchors_empty (gs : List Glyph) (none : ∀ g ∈ gs, g.isAnchor = false) : anchors gs = [] := by
  have gone : gs.filter isAnchor = [] := by
    rw [List.filter_eq_nil_iff]
    intro g member
    simp [none g member]
  rw [anchors, gone]
  rfl

theorem clean_anchors (gs : List Glyph) (clean : ∀ g ∈ gs, g.isLost = false) : ink (chars gs) = anchors gs := by
  have same : gs.filter isSolid = gs.filter isAnchor := by
    apply List.filter_congr
    intro g member
    have kept := clean g member
    unfold isLost at kept
    unfold isAnchor
    cases solid : g.isSolid with
    | false => simp
    | true => simpa [solid] using kept
  rw [anchors, ← same, ink, chars, List.filter_map]
  rfl

theorem beside_nil : Beside [] [] := ⟨rfl, fun _ => rfl⟩

theorem beside_append (s t : Chars) (gs hs : List Glyph) (first : Beside s gs) (next : Beside t hs) :
    Beside (s ++ t) (gs ++ hs) := by
  constructor
  · rw [ink_append, anchors_append, first.inked, next.inked]
  · intro none
    obtain ⟨left, right⟩ := List.append_eq_nil_iff.mp none
    rw [first.empty left, next.empty right, List.append_nil]

theorem beside_chars (gs : List Glyph) (clean : ∀ g ∈ gs, g.isLost = false) : Beside (chars gs) gs := by
  refine ⟨clean_anchors gs clean, ?_⟩
  rintro rfl
  rfl

-- Gaps can be left out of what is shown beside a stretch, as long as anything is left.
theorem beside_gap (s gap t : Chars) (gs : List Glyph) (beside : Beside (s ++ gap ++ t) gs)
    (blank : ∀ c ∈ gap, Whitespace.isCollapsible c) : Beside (s ++ t) gs := by
  constructor
  · rw [← beside.inked, ink_append, ink_append, ink_append, ink_empty gap blank, List.append_nil]
  · intro none
    have gone := beside.empty none
    simp only [List.append_eq_nil_iff] at gone ⊢
    exact ⟨gone.1.1, gone.2⟩

theorem shows_beside (gs : List Glyph) (s : Chars) (shows : Shows gs s) : Beside s gs := by
  refine ⟨shows.inked, ?_⟩
  rintro rfl
  obtain ⟨left, right, rfl, before, after⟩ := shows.stretch [] [] [] rfl ⟨by simp, .inl rfl, .inl rfl⟩
  rw [before.empty rfl, after.empty rfl]
  rfl

theorem shows_clean (gs : List Glyph) (clean : ∀ g ∈ gs, g.isLost = false) : Shows gs (chars gs) := by
  refine ⟨clean_anchors gs clean, ?_⟩
  rintro before during after rfl -
  have part (hs : List Glyph) (inside : ∀ g ∈ hs, g ∈ before ++ during ++ after) : Beside (chars hs) hs :=
    beside_chars hs fun g member => clean g (inside g member)
  refine ⟨chars before, chars after, ?_, part before ?_, part after ?_⟩
  · rw [chars_append, chars_append]
  · exact fun g member => List.mem_append_left _ (List.mem_append_left _ member)
  · exact fun g member => List.mem_append_right _ member

-- Where something is lost and nothing is sure to be shown, no stretch has to be shown.
theorem shows_murky (gs : List Glyph) (s : Chars) (hidden : ∀ g ∈ gs, g.isAnchor = false) (lost : ∃ g ∈ gs, g.isLost)
    (blank : ink s = []) : Shows gs s := by
  refine ⟨by rw [blank, anchors_empty gs hidden], ?_⟩
  rintro before during after rfl ⟨clean, opens, closes⟩
  have inside (g : Glyph) (member : g ∈ during) : g.isAnchor = false := hidden g (by simp [member])
  have no (g : Option Glyph) (from_ : ∀ h ∈ g, h ∈ during) : ¬ g.any isAnchor := by
    cases g with
    | none => simp
    | some h => simp [inside h (from_ h rfl)]
  obtain rfl := opens.resolve_right (no _ fun h first => List.mem_of_head? first)
  obtain rfl := closes.resolve_right (no _ fun h last => List.mem_of_getLast? last)
  obtain ⟨g, member, gone⟩ := lost
  rw [clean g (by simpa using member)] at gone
  cases gone

theorem head_part (gs hs : List Glyph) (some : gs ≠ []) : (gs ++ hs).head? = gs.head? := by
  cases gs with
  | nil => exact absurd rfl some
  | cons g gs => rfl

theorem last_part (gs hs : List Glyph) (some : hs ≠ []) : (gs ++ hs).getLast? = hs.getLast? := by
  rw [List.getLast?_append, List.getLast?_eq_some_getLast some, Option.some_or]

-- Where the place between two texts is, seen from the parts that the whole is made of.
theorem cut_cases {α : Type} (x y l m r : List α) (same : x ++ y = l ++ m ++ r) :
    (∃ l', l = x ++ l' ∧ y = l' ++ m ++ r) ∨ (∃ r', r = r' ++ y ∧ x = l ++ m ++ r') ∨
      ∃ a b, m = a ++ b ∧ a ≠ [] ∧ b ≠ [] ∧ x = l ++ a ∧ y = b ++ r := by
  rw [List.append_assoc] at same
  rcases List.append_eq_append_iff.mp same with ⟨l', left, rest⟩ | ⟨a, left, rest⟩
  · exact .inl ⟨l', left, by rw [rest, List.append_assoc]⟩
  · rcases List.append_eq_append_iff.mp rest with ⟨r', middle, right⟩ | ⟨b, middle, right⟩
    · exact .inr (.inl ⟨r', right, by rw [left, middle, List.append_assoc]⟩)
    · by_cases nothing : a = []
      · subst nothing
        exact .inl ⟨[], by simpa using left.symm, by rw [right, middle]; rfl⟩
      · by_cases finished : b = []
        · subst finished
          exact .inr (.inl ⟨[], right.symm, by rw [left, middle, List.append_nil, List.append_nil]⟩)
        · exact .inr (.inr ⟨a, b, middle, nothing, finished, left, right⟩)

-- A stretch lies in one of two texts, or it is cut where they meet.
theorem shows_append (gs hs : List Glyph) (s t : Chars) (first : Shows gs s) (next : Shows hs t) :
    Shows (gs ++ hs) (s ++ t) := by
  have left := shows_beside gs s first
  have right := shows_beside hs t next
  refine ⟨(beside_append s t gs hs left right).inked, ?_⟩
  rintro before during after cut ⟨clean, opens, closes⟩
  rcases cut_cases gs hs before during after cut with ⟨rest, rfl, whole⟩ | ⟨rest, rfl, whole⟩ |
    ⟨a, b, rfl, nothing, finished, whole, others⟩
  · have inner := opens.imp_left fun none => (List.append_eq_nil_iff.mp none).2
    obtain ⟨u, w, rfl, front, back⟩ := next.stretch rest during after whole ⟨clean, inner, closes⟩
    exact ⟨s ++ u, w, by simp, beside_append _ _ _ _ left front, back⟩
  · have inner := closes.imp_left fun none => (List.append_eq_nil_iff.mp none).1
    obtain ⟨u, w, rfl, front, back⟩ := first.stretch before during rest whole ⟨clean, opens, inner⟩
    exact ⟨u, w ++ t, by simp, front, beside_append _ _ _ _ back right⟩
  · rw [head_part a b nothing] at opens
    rw [last_part a b finished] at closes
    obtain ⟨u, r, seen, front, none⟩ := first.stretch before a [] (by rw [whole, List.append_nil])
      ⟨fun g member => clean g (List.mem_append_left b member), opens, .inl rfl⟩
    obtain ⟨l, w, shown, before, back⟩ := next.stretch [] b after others
      ⟨fun g member => clean g (List.mem_append_right a member), .inl rfl, closes⟩
    rw [none.empty rfl, List.append_nil] at seen
    rw [before.empty rfl, List.nil_append] at shown
    exact ⟨u, w, by simp [seen, shown, chars_append], front, back⟩

theorem blank_anchor (g : Glyph) (blank : Whitespace.isCollapsible g.char) : g.isAnchor = false := by
  simp [isAnchor, isSolid, blank]

-- At an end with white space, a stretch has nothing more beside it.
theorem stretch_opens (before during after : List Glyph) (stretch : Stretch before during after)
    (blank : ∀ c ∈ (chars during).head?, Whitespace.isCollapsible c) : before = [] := by
  refine stretch.opens.resolve_right ?_
  rw [chars, List.head?_map] at blank
  cases first : during.head? with
  | none => simp
  | some g =>
      rw [first] at blank
      simp [blank_anchor g (blank g.char rfl)]

theorem stretch_closes (before during after : List Glyph) (stretch : Stretch before during after)
    (blank : ∀ c ∈ (chars during).getLast?, Whitespace.isCollapsible c) : after = [] := by
  refine stretch.closes.resolve_right ?_
  rw [chars, List.getLast?_map] at blank
  cases last : during.getLast? with
  | none => simp
  | some g =>
      rw [last] at blank
      simp [blank_anchor g (blank g.char rfl)]

-- Gaps at the end that are not part of the text may be left out.
theorem shows_end (gs : List Glyph) (s gap : Chars) (shows : Shows gs (s ++ gap))
    (blank : ∀ c ∈ gap, Whitespace.isCollapsible c)
    (ends : (chars gs).getLast?.any Whitespace.isCollapsible = false) : Shows gs s := by
  refine ⟨by rw [← shows.inked, ink_append, ink_empty gap blank, List.append_nil], ?_⟩
  rintro before during after rfl stretch
  obtain ⟨u, w, whole, front, back⟩ := shows.stretch before during after rfl stretch
  -- What is left out would be the end of the text if it were part of the stretch.
  have outside (blank : ∀ c ∈ (chars during).getLast?, Whitespace.isCollapsible c) : during = [] := by
    obtain rfl := stretch_closes before during after stretch blank
    by_contra some
    rw [List.append_nil, chars_append, List.getLast?_append] at ends
    cases last : (chars during).getLast? with
    | none => exact some (List.map_eq_nil_iff.mp (List.getLast?_eq_none_iff.mp last))
    | some c =>
        rw [last] at ends
        simp [blank c last] at ends
  rcases cut_cases s gap u (chars during) w whole with ⟨rest, rfl, parts⟩ | ⟨rest, rfl, parts⟩ |
    ⟨a, b, parts, nothing, finished, -, rest⟩
  · have inside (c : Char) (member : c ∈ chars during) : Whitespace.isCollapsible c := blank c (by simp [parts, member])
    obtain rfl := outside fun c last => inside c (List.mem_of_getLast? last)
    have first := stretch_opens before [] after stretch (by simp [chars])
    have last := stretch_closes before [] after stretch (by simp [chars])
    have gone := front.empty first
    simp only [List.append_eq_nil_iff] at gone
    subst first last
    exact ⟨s, [], by simp [chars], by rw [gone.1]; exact beside_nil, beside_nil⟩
  · refine ⟨u, rest, parts, front, ?_⟩
    have shorter := beside_gap rest gap [] after (by rwa [List.append_nil]) blank
    rwa [List.append_nil] at shorter
  · have some : during ≠ [] := by
      rintro rfl
      exact nothing (List.append_eq_nil_iff.mp parts.symm).1
    refine absurd (outside ?_) some
    intro c last
    rw [parts, List.getLast?_append, List.getLast?_eq_some_getLast finished, Option.some_or] at last
    refine blank c ?_
    rw [rest, ← Option.some.inj last]
    exact List.mem_append_left w (List.getLast_mem finished)

-- A gap behind another one is not part of the text, which has no two spaces in a row.
theorem shows_twin (gs : List Glyph) (s t : Chars) (c d : Char) (shows : Shows gs ((s ++ [c]) ++ ([d] ++ t)))
    (first : Whitespace.isCollapsible c) (next : Whitespace.isCollapsible d)
    (spaced : Spaced (chars gs)) (tight : Whitespace.Tight (chars gs)) : Shows gs ((s ++ [c]) ++ t) := by
  refine ⟨?_, ?_⟩
  · rw [← shows.inked, ink_append (s ++ [c]) t, ink_append (s ++ [c]), ink_append [d],
      ink_empty [d] (by simpa using next), List.nil_append]
  rintro before during after rfl stretch
  obtain ⟨u, w, whole, front, back⟩ := shows.stretch before during after rfl stretch
  rcases cut_cases (s ++ [c]) ([d] ++ t) u (chars during) w whole with ⟨rest, rfl, parts⟩ | ⟨rest, rfl, parts⟩ |
    ⟨a, b, parts, nothing, finished, left, right⟩
  · cases rest with
    | nil =>
        -- The second gap would be where the stretch begins, but there is something on its left.
        have opened : before = [] := by
          refine stretch_opens before during after stretch fun e head => ?_
          obtain ⟨more, inside⟩ := List.head?_eq_some_iff.mp head
          rw [inside] at parts
          obtain ⟨rfl, -⟩ := List.cons.inj parts
          exact next
        have gone := front.empty opened
        simp at gone
    | cons e rest =>
        obtain ⟨rfl, others⟩ := List.cons.inj parts
        refine ⟨s ++ [c] ++ rest, w, ?_, beside_gap (s ++ [c]) [d] rest before ?_ (by simpa using next), back⟩
        · rw [show t = rest ++ chars during ++ w from others]
          simp
        · simpa using front
  · refine ⟨u, rest ++ t, by rw [parts]; simp, front, beside_gap rest [d] t after ?_ (by simpa using next)⟩
    simpa using back
  · -- Both gaps would be part of the stretch.
    exfalso
    obtain ⟨a', rfl⟩ : ∃ a', a = a' ++ [c] := by
      have last : a.getLast? = some c := by
        have whole := congrArg List.getLast? left
        rw [List.getLast?_append, List.getLast?_append, List.getLast?_eq_some_getLast nothing] at whole
        rw [List.getLast?_eq_some_getLast nothing]
        simpa using whole.symm
      exact List.getLast?_eq_some_iff.mp last
    obtain ⟨b', rfl⟩ : ∃ b', b = d :: b' := by
      cases b with
      | nil => exact absurd rfl finished
      | cons e b => exact ⟨b, by rw [(List.cons.inj right).1]⟩
    have inside (e : Char) (member : e ∈ chars during) (blank : Whitespace.isCollapsible e) : e = ' ' :=
      spaced e (by simp [chars_append, member]) blank
    obtain rfl := inside c (by simp [parts]) first
    obtain rfl := inside d (by simp [parts]) next
    refine tight (chars before ++ a') (b' ++ chars after) ?_
    simp [chars_append, parts]

theorem shows_behind (gs : List Glyph) (s gap t : Chars) (c : Char) (shows : Shows gs ((s ++ [c]) ++ (gap ++ t)))
    (first : Whitespace.isCollapsible c) (blank : ∀ d ∈ gap, Whitespace.isCollapsible d)
    (spaced : Spaced (chars gs)) (tight : Whitespace.Tight (chars gs)) : Shows gs ((s ++ [c]) ++ t) := by
  induction gap with
  | nil => exact shows
  | cons d gap ih =>
      rw [List.forall_mem_cons] at blank
      exact ih (shows_twin gs s (gap ++ t) c d shows first blank.1 spaced tight) blank.2

theorem seen_solid (g : Glyph) (seen : g.isSeen) : g.isSolid := by
  have other : Text.isBlank g.char = false := by simpa [isSeen] using seen
  rw [isSolid, Whitespace.solid_uncollapsible g.char other]
  rfl

theorem lost_solid (g : Glyph) (lost : g.isLost) : g.isSolid := ((Bool.and_eq_true _ _).mp lost).2

theorem loses_solid (gs : List Glyph) : Loses gs ↔ Loses (gs.filter isSolid) := by
  constructor
  · rintro ⟨first, lost, last, part, seen, gone, shown⟩
    refine ⟨first, lost, last, ?_, seen, gone, shown⟩
    have kept := part.filter isSolid
    simpa [List.filter_cons, seen_solid first seen, lost_solid lost gone, seen_solid last shown] using kept
  · rintro ⟨first, lost, last, part, marks⟩
    exact ⟨first, lost, last, part.trans List.filter_sublist, marks⟩

theorem sublist_behind {α : Type} (x : α) (xs l r : List α) (part : List.Sublist (x :: xs) (l ++ r)) (absent : x ∉ l) :
    List.Sublist (x :: xs) r := by
  induction l with
  | nil => exact part
  | cons y l ih =>
      simp only [List.mem_cons, not_or] at absent
      cases part with
      | cons _ rest => exact ih rest absent.2
      | cons_cons _ _ => exact absurd rfl absent.1

theorem loses_between (before during after : List Glyph) (left : ∀ g ∈ before, g.isSeen = false)
    (right : ∀ g ∈ after, g.isSeen = false) (white : ∀ g ∈ during, g.hidden → g.isSeen = false)
    (opens : ∀ g ∈ during.head?, g.isSeen) (closes : ∀ g ∈ during.getLast?, g.isSeen) :
    Loses (before ++ during ++ after) ↔ ∃ g ∈ during, g.isLost := by
  constructor
  · rintro ⟨first, lost, last, part, seen, gone, shown⟩
    refine ⟨lost, ?_, gone⟩
    have outside (g : Glyph) (seen : g.isSeen) (gs : List Glyph) (none : ∀ g ∈ gs, g.isSeen = false) : g ∉ gs := by
      intro member
      rw [none g member] at seen
      cases seen
    rw [List.append_assoc] at part
    have later := (sublist_behind first _ before _ part (outside first seen before left)).reverse
    rw [List.reverse_append] at later
    have inner := sublist_behind last [lost, first] after.reverse _ later
      (by simpa using outside last shown after right)
    exact List.mem_reverse.mp (inner.subset (by simp))
  · rintro ⟨lost, member, gone⟩
    have unseen : lost.isSeen = false := white lost member ((Bool.and_eq_true _ _).mp gone).1
    obtain ⟨front, back, rfl⟩ := List.append_of_mem member
    cases front with
    | nil =>
        have seen := opens lost rfl
        rw [unseen] at seen
        cases seen
    | cons first front =>
        cases ends : back.getLast? with
        | none =>
            rw [List.getLast?_eq_none_iff.mp ends] at closes
            have seen := closes lost (by rw [Option.mem_def, List.getLast?_append]; rfl)
            rw [unseen] at seen
            cases seen
        | some last =>
            have around : List.Sublist [first, lost, last] (first :: front ++ lost :: back) :=
              ((List.nil_sublist front).cons_cons first).append
                ((List.singleton_sublist.mpr (List.mem_of_getLast? ends)).cons_cons lost)
            refine ⟨first, lost, last, ?_, opens first rfl, gone, closes last ?_⟩
            · exact around.trans ((List.sublist_append_right before _).trans (List.sublist_append_left _ after))
            · rw [Option.mem_def, List.getLast?_append, List.getLast?_cons, ends]
              rfl

end Glyph

namespace Text

theorem strip_parts (s : Chars) : ∃ l r, s = l ++ strip s ++ r ∧ (∀ c ∈ l, isBlank c) ∧ (∀ c ∈ r, isBlank c) ∧
    (strip s).head?.any isBlank = false ∧ (strip s).getLast?.any isBlank = false := by
  obtain ⟨l, whole, left⟩ := trim_start_run isBlank s
  obtain ⟨r, rest, right⟩ := trim_end_run isBlank (trimStart isBlank s)
  refine ⟨l, r, ?_, left, right, ?_, trim_end_stop isBlank _⟩
  · rw [List.append_assoc, strip, trim, ← rest, ← whole]
  · rw [strip, ← trim_both]
    exact drop_stop isBlank _

theorem strip_between (u m w : Chars) (left : ∀ c ∈ u, isBlank c) (right : ∀ c ∈ w, isBlank c)
    (first : m.head?.any isBlank = false) (last : m.getLast?.any isBlank = false) : strip (u ++ m ++ w) = m := by
  rw [strip, trim, List.append_assoc, trim_start_append, trim_start_all isBlank u left, if_pos List.isEmpty_nil,
    trim_start_append]
  have begun : trimStart isBlank m = m := drop_none isBlank m first
  by_cases nothing : m = []
  · subst nothing
    rw [begun, if_pos List.isEmpty_nil, trim_start_all isBlank w right]
    rfl
  · rw [begun, if_neg (by simpa using nothing), trim_end_append, trim_end_all isBlank w right, if_pos List.isEmpty_nil,
      trim_end_none isBlank m last]

end Text

namespace Glyph

theorem ink_seen (s : Chars) (first : s.head?.any Text.isBlank = false) (last : s.getLast?.any Text.isBlank = false) :
    (ink s).head? = s.head? ∧ (ink s).getLast? = s.getLast? := by
  constructor
  · cases s with
    | nil => rfl
    | cons c s =>
        have solid := Whitespace.solid_uncollapsible c (by simpa using first)
        simp [ink, solid]
  · cases ends : s.getLast? with
    | none =>
        rw [List.getLast?_eq_none_iff.mp ends]
        rfl
    | some c =>
        obtain ⟨front, rfl⟩ := List.getLast?_eq_some_iff.mp ends
        have solid := Whitespace.solid_uncollapsible c (by simpa using last)
        simp [ink, solid]

theorem ink_strip (s : Chars) : ink (Text.strip s) = Text.strip (ink s) := by
  obtain ⟨l, r, whole, left, right, first, last⟩ := Text.strip_parts s
  obtain ⟨head, ends⟩ := ink_seen _ first last
  have blank (u : Chars) (all : ∀ c ∈ u, Text.isBlank c) : ∀ c ∈ ink u, Text.isBlank c :=
    fun c member => all c (List.mem_filter.mp member).1
  have parts := congrArg ink whole
  rw [ink_append, ink_append] at parts
  rw [parts]
  exact (Text.strip_between _ _ _ (blank l left) (blank r right) (by rwa [head]) (by rwa [ends])).symm

-- The text in three parts, with all that is seen in the middle one.
structure Framed (gs before during after : List Glyph) : Prop where
  whole : gs = before ++ during ++ after
  left : ∀ g ∈ before, g.isSeen = false
  right : ∀ g ∈ after, g.isSeen = false
  opens : ∀ g ∈ during.head?, g.isSeen
  closes : ∀ g ∈ during.getLast?, g.isSeen
  core : Text.strip (chars gs) = chars during

theorem framed_exists (gs : List Glyph) : ∃ before during after, Framed gs before during after := by
  obtain ⟨l, r, whole, left, right, first, last⟩ := Text.strip_parts (chars gs)
  obtain ⟨rest, after, rfl, parts, rfl⟩ := List.map_eq_append_iff.mp whole
  obtain ⟨before, during, rfl, rfl, core⟩ := List.map_eq_append_iff.mp parts
  have unseen (hs : List Glyph) (blank : ∀ c ∈ hs.map Glyph.char, Text.isBlank c) : ∀ g ∈ hs, g.isSeen = false := by
    intro g member
    simp [isSeen, blank g.char (List.mem_map_of_mem member)]
  refine ⟨before, during, after, rfl, unseen before left, unseen after right, ?_, ?_, core.symm⟩
  · rw [← core, List.head?_map] at first
    intro g head
    rw [Option.mem_def.mp head] at first
    simpa [isSeen] using first
  · rw [← core, List.getLast?_map] at last
    intro g ends
    rw [Option.mem_def.mp ends] at last
    simpa [isSeen] using last

theorem beside_blank (s : Chars) (gs : List Glyph) (beside : Beside s gs) (unseen : ∀ g ∈ gs, g.isSeen = false) :
    ∀ c ∈ s, Text.isBlank c := by
  intro c member
  by_cases collapsible : Whitespace.isCollapsible c
  · exact Whitespace.collapsible_blank c collapsible
  · have inside : c ∈ ink s := by
      rw [ink, List.mem_filter]
      exact ⟨member, by simpa using collapsible⟩
    rw [beside.inked, anchors, chars] at inside
    obtain ⟨g, shown, rfl⟩ := List.mem_map.mp inside
    simpa [isSeen] using unseen g (List.mem_filter.mp shown).1

theorem seen_anchor (g : Glyph) (seen : g.isSeen) (white : g.hidden → g.isSeen = false) : g.isAnchor := by
  have shown : g.hidden = false := by
    cases hidden : g.hidden with
    | false => rfl
    | true =>
        rw [white hidden] at seen
        cases seen
  rw [isAnchor, shown, seen_solid g seen]
  rfl

theorem strip_of_blank (s : Chars) (blank : ∀ c ∈ s, Text.isBlank c) : Text.strip s = [] := by
  have nothing := Text.strip_between s [] [] blank (by simp) rfl rfl
  simpa using nothing

theorem anchors_ends (gs : List Glyph) (opens : ∀ g ∈ gs.head?, g.isAnchor) (closes : ∀ g ∈ gs.getLast?, g.isAnchor) :
    (anchors gs).head? = (chars gs).head? ∧ (anchors gs).getLast? = (chars gs).getLast? := by
  constructor
  · cases gs with
    | nil => rfl
    | cons g gs => simp [anchors, chars, opens g rfl]
  · cases ends : gs.getLast? with
    | none =>
        rw [List.getLast?_eq_none_iff.mp ends]
        rfl
    | some g =>
        obtain ⟨front, rfl⟩ := List.getLast?_eq_some_iff.mp ends
        simp [anchors, chars, closes g ends]

theorem lost_fewer (gs : List Glyph) (lost : ∃ g ∈ gs, g.isLost) : anchors gs ≠ ink (chars gs) := by
  obtain ⟨g, member, gone⟩ := lost
  have solid : ink (chars gs) = chars (gs.filter isSolid) := by
    rw [ink, chars, List.filter_map]
    rfl
  have twice : gs.filter isAnchor = (gs.filter isSolid).filter fun g => !g.hidden := by
    rw [List.filter_filter]
    rfl
  intro same
  rw [solid, anchors, twice] at same
  have count := congrArg List.length same
  rw [chars, chars, List.length_map, List.length_map] at count
  have fewer := List.length_filter_lt_length_iff_exists (p := fun g => !g.hidden).mpr
    ⟨g, List.mem_filter.mpr ⟨member, lost_solid g gone⟩, by simp [((Bool.and_eq_true _ _).mp gone).1]⟩
  omega

theorem shows_strip_iff (gs : List Glyph) (s : Chars) (shows : Shows gs s)
    (white : ∀ g ∈ gs, g.hidden → g.isSeen = false) : Text.strip s = Text.strip (chars gs) ↔ ¬ Loses gs := by
  obtain ⟨before, during, after, rfl, left, right, opens, closes, core⟩ := framed_exists gs
  have inner (g : Glyph) (member : g ∈ during) : g ∈ before ++ during ++ after :=
    List.mem_append_left _ (List.mem_append_right _ member)
  have anchored (g : Glyph) (member : g ∈ during) (seen : g.isSeen) := seen_anchor g seen (white g (inner g member))
  have first (g : Glyph) (head : g ∈ during.head?) := anchored g (List.mem_of_head? head) (opens g head)
  have last (g : Glyph) (ends : g ∈ during.getLast?) := anchored g (List.mem_of_getLast? ends) (closes g ends)
  have solid (c : Option Glyph) (seen : ∀ g ∈ c, g.isSeen) : (c.map Glyph.char).any Text.isBlank = false := by
    cases c with
    | none => rfl
    | some g => simpa [isSeen] using seen g rfl
  have begins : (chars during).head?.any Text.isBlank = false := by
    rw [chars, List.head?_map]
    exact solid _ opens
  have stops : (chars during).getLast?.any Text.isBlank = false := by
    rw [chars, List.getLast?_map]
    exact solid _ closes
  rw [loses_between before during after left right (fun g member => white g (inner g member)) opens closes, core]
  constructor
  · rintro same lost
    have blank (gs : List Glyph) (unseen : ∀ g ∈ gs, g.isSeen = false) : ∀ c ∈ anchors gs, Text.isBlank c := by
      intro c listed
      obtain ⟨g, member, rfl⟩ := List.mem_map.mp listed
      simpa [isSeen] using unseen g (List.mem_filter.mp member).1
    obtain ⟨head, ends⟩ := anchors_ends during first last
    refine lost_fewer during lost ?_
    rw [← same, ink_strip, shows.inked, anchors_append, anchors_append,
      Text.strip_between _ _ _ (blank before left) (blank after right) (by rwa [head]) (by rwa [ends])]
  · intro kept
    by_cases nothing : during = []
    · subst nothing
      have unseen : ∀ g ∈ before ++ [] ++ after, g.isSeen = false := by
        simpa [or_imp, forall_and] using ⟨left, right⟩
      rw [strip_of_blank s (beside_blank s _ (shows_beside _ s shows) unseen)]
      rfl
    · have stretch : Stretch before during after := by
        refine ⟨?_, .inr ?_, .inr ?_⟩
        · intro g member
          by_contra lost
          exact kept ⟨g, member, by simpa using lost⟩
        · rw [List.head?_eq_some_head nothing] at first ⊢
          exact first _ rfl
        · rw [List.getLast?_eq_some_getLast nothing] at last ⊢
          exact last _ rfl
      obtain ⟨u, w, rfl, front, back⟩ := shows.stretch before during after rfl stretch
      exact Text.strip_between _ _ _ (beside_blank u before front left) (beside_blank w after back right) begins stops

end Glyph

end Downmark
