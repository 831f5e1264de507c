import Mathlib.Data.List.TakeWhile
import Downmark.Proofs.Lines
import Downmark.Proofs.Alike
import Downmark.Proofs.PlainTree
/-!
The ends of inline content. Gaps there are written outside of a replacement, the leading ones unless there
already is a gap, the trailing ones unless a space comes next. Main statement: what is written is alike to
the content between what stands before it and what comes after it.
-/

set_option autoImplicit false

namespace Downmark.Render

def spaceOf (s : Chars) : Chars :=
  if s.head?.any Text.isGap || s.getLast?.any Text.isGap then [' '] else []

theorem spaced_newline (s : Chars) (spaced : Spaced s) : '\n' ∉ s :=
  fun member => absurd (spaced '\n' member rfl) (by decide)

theorem spaced_append (s t : Chars) (first : Spaced s) (later : Spaced t) : Spaced (s ++ t) := by
  intro c member
  rcases List.mem_append.mp member with here | there
  · exact first c here
  · exact later c there

theorem trim_free (p : Char → Bool) (s : Chars) (free : ∀ c ∈ s, p c = false) :
    Text.trimStart p s = s ∧ Text.trimEnd p s = s := by
  have unchanged (t : Chars) (none : ∀ c ∈ t, p c = false) : t.dropWhile p = t := by
    apply Text.drop_none p t
    cases t with
    | nil => rfl
    | cons c t => exact none c List.mem_cons_self
  refine ⟨unchanged s free, ?_⟩
  rw [Text.trimEnd, unchanged s.reverse (fun c member => free c (List.mem_reverse.mp member)), List.reverse_reverse]

theorem join_free (output next : Chars) (free : '\n' ∉ output) (others : '\n' ∉ next) :
    join output next = output ++ next := by
  have no (s : Chars) (none : '\n' ∉ s) : ∀ c ∈ s, Text.isNewline c = false := by
    intro c member
    simpa [Text.isNewline] using fun same : c = '\n' => none (same ▸ member)
  have left := (trim_free Text.isNewline output (no output free)).2
  have right := (trim_free Text.isNewline next (no next others)).1
  simp [join, left, right]

theorem flanking_whole (s : Chars) :
    (Whitespace.flanking s).1 ++ (Whitespace.flanking s).2.1 ++ (Whitespace.flanking s).2.2 = s := by
  rw [Whitespace.flanking, List.append_assoc, Text.trim_end_ending]
  exact List.takeWhile_append_dropWhile

theorem flanking_gaps (s : Chars) :
    (∀ c ∈ (Whitespace.flanking s).1, Text.isGap c) ∧ ∀ c ∈ (Whitespace.flanking s).2.2, Text.isGap c :=
  ⟨fun c member => List.all_eq_true.mp List.all_takeWhile c member, Text.ending_all Text.isGap _⟩

theorem flanking_bare (s : Chars) (gaps : ∀ c ∈ s, Text.isGap c) : (Whitespace.flanking s).2.1 = [] := by
  have none : Text.trimStart Text.isGap s = [] := List.dropWhile_eq_nil_iff.mpr gaps
  rw [Whitespace.flanking, none]
  rfl

theorem space_empty (s : Chars) :
    spaceOf s = [] ↔ s.head?.any Text.isGap = false ∧ s.getLast?.any Text.isGap = false := by
  rw [spaceOf]
  split
  · rename_i found
    simpa using fun first => by simpa [first] using found
  · rename_i found
    simpa using found

theorem flanking_space (s : Chars) :
    (Whitespace.flanking s).1 ++ (Whitespace.flanking s).2.2 = [] ↔ spaceOf s = [] := by
  rw [List.append_eq_nil_iff, space_empty]
  have begins : (Whitespace.flanking s).1 = [] ↔ s.head?.any Text.isGap = false := Text.take_empty Text.isGap s
  rw [begins]
  refine and_congr_right fun solid => ?_
  have rest : Text.trimStart Text.isGap s = s := Text.drop_none Text.isGap s solid
  rw [Whitespace.flanking, rest]
  exact Text.ending_empty Text.isGap s

theorem space_gap (s : Chars) : ∀ c ∈ spaceOf s, Text.isGap c := by
  unfold spaceOf
  split <;> simp [Text.isGap]

theorem flanking_alike (s : Chars) :
    Whitespace.Alike ((Whitespace.flanking s).1 ++ (Whitespace.flanking s).2.2) (spaceOf s) := by
  refine Whitespace.alike_gaps _ _ ?_ (space_gap s) (flanking_space s)
  intro c member
  rcases List.mem_append.mp member with leading | trailing
  · exact (flanking_gaps s).1 c leading
  · exact (flanking_gaps s).2 c trailing

theorem spaced_gap (c : Option Char) (spaced : ∀ d, c = some d → Whitespace.isCollapsible d → d = ' ') :
    c.any Text.isGap = c.any Whitespace.isCollapsible := by
  cases c with
  | none => rfl
  | some d =>
      by_cases blank : Whitespace.isCollapsible d
      · obtain rfl := spaced d rfl blank
        rfl
      · have solid : Text.isGap d = false := by
          cases gap : Text.isGap d with
          | false => rfl
          | true => exact absurd (Whitespace.gap_collapsible d gap) blank
        simp [solid, blank]

theorem space_alike (a b : Chars) (same : Whitespace.Alike a b) (first : Spaced a) (later : Spaced b) :
    spaceOf a = spaceOf b := by
  have head (s : Chars) (spaced : Spaced s) :=
    spaced_gap s.head? fun d found => spaced d (List.mem_of_head? found)
  have last (s : Chars) (spaced : Spaced s) :=
    spaced_gap s.getLast? fun d found => spaced d (List.mem_of_getLast? found)
  rw [spaceOf, spaceOf, head a first, head b later, last a first, last b later, Whitespace.alike_head a b same,
    Whitespace.alike_last a b same]

theorem space_spaced (s : Chars) : Spaced (spaceOf s) := by
  unfold spaceOf
  split <;> simp [Spaced]

theorem ends_in_gap (output : Chars) : endsInGap output = output.getLast?.any Text.isGap := by
  unfold endsInGap
  cases output.getLast? <;> rfl

theorem leading_alike (output leading rest : Chars) (gaps : ∀ c ∈ leading, Text.isGap c) :
    Whitespace.Alike (output ++ ((if endsInGap output then [] else leading) ++ rest))
      (output ++ (leading ++ rest)) := by
  split
  · rename_i ends
    rw [ends_in_gap] at ends
    rw [List.nil_append, ← List.append_assoc]
    exact Whitespace.alike_symm _ _ (Whitespace.alike_gap_behind output leading rest gaps ends)
  · exact Whitespace.alike_refl _

theorem trailing_alike (dropped : Bool) (trailing next : Chars) (gaps : ∀ c ∈ trailing, Text.isGap c)
    (follows : dropped = true → next.head? = some ' ') :
    Whitespace.Alike ((if dropped then [] else trailing) ++ next) (trailing ++ next) := by
  split
  · rename_i gone
    have begins : next.head?.any Text.isGap := by
      rw [follows gone]
      rfl
    exact Whitespace.alike_symm _ _ (Whitespace.alike_gap_before trailing next gaps begins)
  · exact Whitespace.alike_refl _

-- What an element becomes, given its content and what is written before it.
def framed (blank dropped : Bool) (output content : Chars) : Chars :=
  (if endsInGap output then [] else (Whitespace.flanking content).1) ++
    (if blank then [] else (Whitespace.flanking content).2.1) ++
    (if dropped then [] else (Whitespace.flanking content).2.2)

theorem framed_alike (blank dropped : Bool) (output content next : Chars)
    (follows : dropped = true → next.head? = some ' ') :
    Whitespace.Alike (output ++ framed blank dropped output content ++ next)
      (output ++ (if blank then spaceOf content else content) ++ next) := by
  have parts := flanking_whole content
  have gaps := flanking_alike content
  obtain ⟨before, after⟩ := flanking_gaps content
  unfold framed
  generalize Whitespace.flanking content = split at parts gaps before after ⊢
  obtain ⟨leading, core, trailing⟩ := split
  simp only at parts gaps before after ⊢
  have ends := trailing_alike dropped trailing next after follows
  have begins := leading_alike output leading ((if blank then [] else core) ++ (trailing ++ next)) before
  have whole : Whitespace.Alike (output ++ leading ++ (if blank then [] else core) ++ trailing ++ next)
      (output ++ (if blank then spaceOf content else content) ++ next) := by
    cases blank with
    | true =>
        have outer := Whitespace.alike_append _ _ _ _ (Whitespace.alike_append output output _ _ rfl gaps)
          (Whitespace.alike_refl next)
        simpa [List.append_assoc] using outer
    | false =>
        rw [← parts]
        simpa [List.append_assoc] using Whitespace.alike_refl _
  refine Whitespace.alike_trans _ _ _ (Whitespace.alike_trans _ _ _ ?_ begins) (by simpa using whole)
  have inner := Whitespace.alike_append _ _ _ _ (Whitespace.alike_refl (if blank then [] else core)) ends
  have framing := Whitespace.alike_append _ _ _ _
    (Whitespace.alike_refl (output ++ if endsInGap output then [] else leading)) inner
  simpa [List.append_assoc] using framing

theorem framed_spaced (blank dropped : Bool) (output content : Chars) (spaced : Spaced content) :
    Spaced (framed blank dropped output content) := by
  have parts := flanking_whole content
  intro c member
  have inside : c ∈ content := by
    rw [← parts]
    simp only [framed, List.mem_append] at member ⊢
    rcases member with (leading | core) | trailing
    · split at leading
      · cases leading
      · exact .inl (.inl leading)
    · split at core
      · cases core
      · exact .inl (.inr core)
    · split at trailing
      · cases trailing
      · exact .inr trailing
  exact spaced c inside

end Downmark.Render
