import Downmark.Proofs.Flanking
import Downmark.Proofs.NotedTexts
import Downmark.Proofs.Spelled
import Downmark.Proofs.Stacked
/-!
The first and the last character of a text that is no gap. Main statements: escaping a text and joining it to others
leave no white space where there was a solid character, and what is left between the gaps at its ends begins and ends
with these characters.
-/

set_option autoImplicit false

namespace Downmark

def gapless (s : Chars) : Chars := s.filter fun c => !Text.isGap c

/-- Whether something is solid, when it is there. -/
def SolidAt (c : Option Char) : Prop := c.any (fun c => !Text.isBlank c) = true

def Seen (s : Chars) : Prop := ∃ c ∈ s, Text.isBlank c = false

def Gaps (s : Chars) : Prop := gapless s = []

/-- The first character that is no gap is solid. -/
def Leads (s : Chars) : Prop := SolidAt (gapless s).head?

/-- The last character that is no gap is solid. -/
def Trails (s : Chars) : Prop := SolidAt (gapless s).getLast?

theorem gapless_append (s t : Chars) : gapless (s ++ t) = gapless s ++ gapless t := List.filter_append ..

theorem gapless_reverse (s : Chars) : gapless s.reverse = (gapless s).reverse := List.filter_reverse ..

theorem gaps_iff (s : Chars) : Gaps s ↔ ∀ c ∈ s, Text.isGap c := by
  simp [Gaps, gapless, List.filter_eq_nil_iff]

theorem trails_reverse (s : Chars) : Trails s ↔ Leads s.reverse := by
  rw [Trails, Leads, gapless_reverse, List.head?_reverse]

theorem gaps_reverse (s : Chars) : Gaps s ↔ Gaps s.reverse := by
  rw [Gaps, Gaps, gapless_reverse, List.reverse_eq_nil_iff]

theorem seen_iff (s : Chars) : Seen s ↔ Text.isBlankText s = false := by
  simp [Seen, Text.isBlankText]

theorem leads_seen (s : Chars) (leads : Leads s) : Seen s := by
  unfold Leads SolidAt at leads
  cases first : (gapless s).head? with
  | none => simp [first] at leads
  | some c => exact ⟨c, (List.mem_filter.mp (List.mem_of_head? first)).1, by simpa [first] using leads⟩

theorem trails_seen (s : Chars) (trails : Trails s) : Seen s := by
  obtain ⟨c, member, solid⟩ := leads_seen _ ((trails_reverse s).mp trails)
  exact ⟨c, List.mem_reverse.mp member, solid⟩

theorem seen_part (s t : Chars) (part : ∀ c ∈ s, Text.isBlank c = false → c ∈ t) (seen : Seen s) : Seen t := by
  obtain ⟨c, member, solid⟩ := seen
  exact ⟨c, part c member solid, solid⟩

theorem leads_not_gaps (s : Chars) (leads : Leads s) : ¬ Gaps s := by
  intro gaps
  rw [Leads, show gapless s = [] from gaps] at leads
  cases leads

theorem leads_append (s t : Chars) (leads : Leads s) : Leads (s ++ t) := by
  rw [Leads, gapless_append]
  cases shape : gapless s with
  | nil => exact absurd shape (leads_not_gaps s leads)
  | cons c rest =>
      rw [Leads, shape] at leads
      exact leads

theorem leads_behind (s t : Chars) (gaps : Gaps s) (leads : Leads t) : Leads (s ++ t) := by
  rwa [Leads, gapless_append, show gapless s = [] from gaps, List.nil_append]

theorem gaps_append (s t : Chars) (first : Gaps s) (next : Gaps t) : Gaps (s ++ t) := by
  rw [Gaps, gapless_append, show gapless s = [] from first, show gapless t = [] from next, List.append_nil]

theorem trails_append (s t : Chars) (trails : Trails t) : Trails (s ++ t) := by
  rw [trails_reverse] at trails ⊢
  rw [List.reverse_append]
  exact leads_append _ _ trails

theorem trails_before (s t : Chars) (trails : Trails s) (gaps : Gaps t) : Trails (s ++ t) := by
  rw [trails_reverse] at trails ⊢
  rw [List.reverse_append]
  exact leads_behind _ _ ((gaps_reverse t).mp gaps) trails

theorem solid_not_gap (c : Char) (solid : Text.isBlank c = false) : Text.isGap c = false := by
  cases gap : Text.isGap c with
  | false => rfl
  | true =>
      rw [Whitespace.collapsible_blank c (Whitespace.gap_collapsible c gap)] at solid
      cases solid

theorem solid_leads (c : Char) (s : Chars) (solid : Text.isBlank c = false) : Leads (c :: s) := by
  simp [Leads, SolidAt, gapless, solid_not_gap c solid, solid]

theorem solid_trails (s : Chars) (c : Char) (solid : Text.isBlank c = false) : Trails (s ++ [c]) := by
  rw [trails_reverse, List.reverse_append]
  exact solid_leads c _ solid

theorem regapped_gapless (text data : Chars) (regapped : Regapped text data) : gapless text = Glyph.ink data := by
  rw [← regapped.inked]
  refine List.filter_congr fun c member => ?_
  cases blank : Whitespace.isCollapsible c with
  | true =>
      obtain rfl := regapped.spaced c member blank
      rfl
  | false =>
      cases gap : Text.isGap c with
      | false => rfl
      | true => exact absurd (Whitespace.gap_collapsible c gap) (by simp [blank])

theorem spelled_leads (special : Chars) (start : Bool) (s w : Chars) (spelled : Escape.Spelled special start s w)
    (leads : Leads s) : Leads w := by
  induction spelled with
  | nil => exact leads
  | plain start c s w _ _ _ ih =>
      by_cases gap : Text.isGap c
      · have skip (t : Chars) : gapless (c :: t) = gapless t := by simp [gapless, gap]
        rw [Leads, skip] at leads ⊢
        exact ih leads
      · have first (t : Chars) : gapless (c :: t) = c :: gapless t := by simp [gapless, gap]
        rw [Leads, first] at leads ⊢
        exact leads
  | slashed start c s w => rfl

theorem spelled_kept (special : Chars) (start : Bool) (s w : Chars) (spelled : Escape.Spelled special start s w)
    (c : Char) (member : c ∈ s) : c ∈ w := by
  induction spelled with
  | nil => exact member
  | plain start d s w _ _ _ ih =>
      rcases List.mem_cons.mp member with rfl | later
      · exact List.mem_cons_self
      · exact List.mem_cons_of_mem d (ih later)
  | slashed start d s w _ _ ih =>
      refine List.mem_cons_of_mem '\\' ?_
      rcases List.mem_cons.mp member with rfl | later
      · exact List.mem_cons_self
      · exact List.mem_cons_of_mem d (ih later)

section

variable (special : Chars) (common : ∀ c ∈ special, Text.isGap c = false)

include common

theorem slashed_solid (start : Bool) (c : Char) (w : Chars)
    (reason : c ∈ special ∨ Escape.opensMarkup c w = true ∨ start = true ∧ c ∈ Escape.lineSpecial) :
    Text.isGap c = false := by
  cases gap : Text.isGap c with
  | false => rfl
  | true =>
      obtain ⟨-, closed, other⟩ := Escape.gap_plain c w gap
      rcases reason with listed | opens | ⟨-, listed⟩
      · rw [common c listed] at gap
        cases gap
      · rw [closed] at opens
        cases opens
      · exact absurd listed other

theorem spelled_gapless_last (start : Bool) (s w : Chars) (spelled : Escape.Spelled special start s w) :
    (gapless w).getLast? = (gapless s).getLast? := by
  induction spelled with
  | nil => rfl
  | plain start c s w _ _ _ ih =>
      by_cases gap : Text.isGap c
      · simpa [gapless, gap] using ih
      · have first (t : Chars) : gapless (c :: t) = c :: gapless t := by simp [gapless, gap]
        rw [first, first, List.getLast?_cons, List.getLast?_cons, ih]
  | slashed start c s w reason _ ih =>
      have solid := slashed_solid special common start c w reason
      have first (t : Chars) : gapless (c :: t) = c :: gapless t := by simp [gapless, solid]
      have slash : gapless ('\\' :: c :: w) = '\\' :: gapless (c :: w) := rfl
      rw [slash, first, first, List.getLast?_cons, List.getLast?_cons, List.getLast?_cons, ih, Option.getD_some]

theorem spelled_gaps (start : Bool) (s w : Chars) (spelled : Escape.Spelled special start s w) (gaps : Gaps s) :
    Gaps w := by
  have last := spelled_gapless_last special common start s w spelled
  rw [show gapless s = [] from gaps, List.getLast?_nil] at last
  exact List.getLast?_eq_none_iff.mp last

theorem spelled_trails (start : Bool) (s w : Chars) (spelled : Escape.Spelled special start s w) (trails : Trails s) :
    Trails w := by
  rwa [Trails, spelled_gapless_last special common start s w spelled]

end

-- Joining takes both ends alike, so what holds of one end holds of the other.
theorem join_reverse (a b : Chars) : (join a b).reverse = join b.reverse a.reverse := by
  have start (s : Chars) : Text.trimStart Text.isNewline s.reverse = (Text.trimEnd Text.isNewline s).reverse := by
    rw [Text.trimEnd, List.reverse_reverse, Text.trimStart]
  have finish (s : Chars) : Text.trimEnd Text.isNewline s.reverse = (Text.trimStart Text.isNewline s).reverse := by
    rw [Text.trimEnd, List.reverse_reverse, Text.trimStart]
  simp only [join, start, finish, List.reverse_append, List.reverse_replicate, List.length_reverse, List.append_assoc]
  rw [Nat.max_comm]

theorem newlines_not_leads (s : Chars) (newlines : ∀ c ∈ s, Text.isNewline c) : ¬ Leads s := by
  intro leads
  obtain ⟨c, member, solid⟩ := leads_seen s leads
  obtain rfl : c = '\n' := by simpa [Text.isNewline] using newlines c member
  cases solid

theorem leads_join (a b : Chars) (leads : Leads a) : Leads (join a b) := by
  obtain ⟨run, whole, newlines⟩ := Text.trim_end_run Text.isNewline a
  have kept : Leads (Text.trimEnd Text.isNewline a) := by
    by_cases gaps : Gaps (Text.trimEnd Text.isNewline a)
    · rw [whole, Leads, gapless_append, show gapless (Text.trimEnd Text.isNewline a) = [] from gaps] at leads
      exact absurd leads (newlines_not_leads run newlines)
    · rw [whole, Leads, gapless_append] at leads
      cases shape : gapless (Text.trimEnd Text.isNewline a) with
      | nil => exact absurd shape gaps
      | cons c rest =>
          rw [Leads, shape]
          rw [shape] at leads
          exact leads
  rw [join, List.append_assoc]
  exact leads_append _ _ kept

-- Joining takes nothing away but newlines.
theorem seen_join (a b : Chars) (seen : Seen a ∨ Seen b) : Seen (join a b) := by
  have trimmed (s run rest : Chars) (whole : s = run ++ rest ∨ s = rest ++ run)
      (newlines : ∀ c ∈ run, Text.isNewline c) (seen : Seen s) : Seen rest := by
    refine seen_part s rest (fun c member solid => ?_) seen
    have either : c ∈ run ∨ c ∈ rest := by rcases whole with rfl | rfl <;> simpa [or_comm] using member
    refine either.resolve_left fun newline => ?_
    obtain rfl : c = '\n' := by simpa [Text.isNewline] using newlines c newline
    cases solid
  rw [join, List.append_assoc]
  rcases seen with before | after
  · obtain ⟨run, whole, newlines⟩ := Text.trim_end_run Text.isNewline a
    exact seen_part _ _ (fun c member _ => List.mem_append_left _ member)
      (trimmed a run _ (.inr whole) newlines before)
  · obtain ⟨run, whole, newlines⟩ := Text.trim_start_run Text.isNewline b
    exact seen_part _ _ (fun c member _ => List.mem_append_right _ (List.mem_append_right _ member))
      (trimmed b run _ (.inl whole) newlines after)

theorem gaps_line_free (s : Chars) (gaps : Gaps s) : '\n' ∉ s :=
  fun member => absurd ((gaps_iff s).mp gaps _ member) (by decide)

theorem leads_join_behind (a b : Chars) (gaps : Gaps a) (leads : Leads b) : Leads (join a b) := by
  obtain ⟨i, j, k, left, right, joined, -, none⟩ := join_runs a b
  have before : i = 0 := by
    by_contra some
    refine gaps_line_free a gaps (left ▸ List.mem_append_right _ ?_)
    exact List.mem_replicate.mpr ⟨some, rfl⟩
  have after : j = 0 := by
    by_contra some
    obtain ⟨n, rfl⟩ := Nat.exists_eq_succ_of_ne_zero some
    rw [right] at leads
    cases leads
  subst before after
  obtain rfl := none.mpr rfl
  rw [joined, ← List.append_assoc, ← left]
  rw [List.replicate_zero, List.nil_append] at right
  rw [← right]
  exact leads_behind a b gaps leads

theorem trails_join (a b : Chars) (trails : Trails b) : Trails (join a b) := by
  rw [trails_reverse] at trails ⊢
  rw [join_reverse]
  exact leads_join _ _ trails

theorem trails_join_before (a b : Chars) (trails : Trails a) (gaps : Gaps b) : Trails (join a b) := by
  rw [trails_reverse] at trails ⊢
  rw [join_reverse]
  exact leads_join_behind _ _ ((gaps_reverse b).mp gaps) trails

theorem gaps_join (a b : Chars) (first : Gaps a) (next : Gaps b) : Gaps (join a b) := by
  rw [Render.join_free a b (gaps_line_free a first) (gaps_line_free b next)]
  exact gaps_append a b first next

theorem flanking_gapless (s : Chars) : gapless (Whitespace.flanking s).2.1 = gapless s := by
  have whole := Render.flanking_whole s
  obtain ⟨leading, trailing⟩ := Render.flanking_gaps s
  have before : gapless (Whitespace.flanking s).1 = [] := (gaps_iff _).mpr leading
  have after : gapless (Whitespace.flanking s).2.2 = [] := (gaps_iff _).mpr trailing
  rw [← whole, gapless_append, gapless_append, before, after, List.nil_append, List.append_nil, whole]

-- What is left of a text between the gaps at its ends begins and ends with something else.
theorem flanking_stops (s : Chars) : (Whitespace.flanking s).2.1.head?.any Text.isGap = false ∧
    (Whitespace.flanking s).2.1.getLast?.any Text.isGap = false := by
  constructor
  · change (Text.trim Text.isGap s).head?.any Text.isGap = false
    rw [← Text.trim_both]
    exact Text.drop_stop _ _
  · exact Text.trim_end_stop _ _

theorem gapless_head (s : Chars) (stop : s.head?.any Text.isGap = false) : (gapless s).head? = s.head? := by
  cases s with
  | nil => rfl
  | cons c rest =>
      have solid : Text.isGap c = false := by simpa using stop
      simp [gapless, solid]

end Downmark
