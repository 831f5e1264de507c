import Downmark.Proofs.BrokenText
import Downmark.Proofs.Delimiters
/-!
What inline content comes to, as far as blank lines are concerned: a row of signs for what is seen of it, its line
breaks, and the blocks in it, read off the tree. Main statements: two rows give the row of what is written one after the
other, and a text has a blank line exactly if its row is severed.
-/

set_option autoImplicit false

namespace Downmark

inductive Sign where
  | ink
  -- White space that is no gap.
  | faint
  | lineBreak
  | parted
deriving DecidableEq, Repr

def Sign.isBreak : Sign → Bool
  | .lineBreak => true
  | _ => false

/-- A blank line is among the signs, or comes about between two line breaks. -/
def Severed (signs : List Sign) : Prop := .parted ∈ signs ∨ [.lineBreak, .lineBreak] <:+: signs

instance : DecidablePred Severed := fun _ => inferInstanceAs (Decidable (_ ∨ _))

structure Signed (signs : List Sign) (w : Chars) : Prop where
  seen : Seen w ↔ .ink ∈ signs
  broken : Broken w ↔ Severed signs
  first : ¬ Severed signs → (gapless w).head?.map Text.isNewline = signs.head?.map Sign.isBreak
  last : ¬ Severed signs → (gapless w).getLast?.map Text.isNewline = signs.getLast?.map Sign.isBreak

theorem severed_append (a b : List Sign) : Severed (a ++ b) ↔
    Severed a ∨ Severed b ∨ (a.getLast? = some .lineBreak ∧ b.head? = some .lineBreak) := by
  have runs (signs : List Sign) : [Sign.lineBreak, .lineBreak] <:+: signs ↔ ¬ Single .lineBreak signs := by
    rw [single_iff, not_not]
  rw [Severed, Severed, Severed, runs, runs, runs, single_append, List.mem_append]
  tauto

theorem seen_append (a b : Chars) : Seen (a ++ b) ↔ Seen a ∨ Seen b := by
  simp only [Seen, List.mem_append, or_and_right, exists_or]

theorem seen_gapless (w : Chars) : Seen w ↔ Seen (gapless w) :=
  ⟨seen_part w _ fun c member solid => List.mem_filter.mpr ⟨member, by simp [solid_not_gap c solid]⟩,
    seen_part _ w fun _ member _ => (List.mem_filter.mp member).1⟩

theorem signed_same (signs : List Sign) (a b : Chars) (same : gapless a = gapless b) (signed : Signed signs a) :
    Signed signs b := by
  obtain ⟨seen, broken, first, last⟩ := signed
  rw [seen_gapless, same, ← seen_gapless] at seen
  rw [same] at first last
  exact ⟨seen, (broken_same a b same).symm.trans broken, first, last⟩

theorem signed_nil : Signed [] [] where
  seen := by simp [Seen]
  broken := by decide
  first _ := rfl
  last _ := rfl

theorem newline_iff (c : Option Char) (sign : Option Sign) (same : c.map Text.isNewline = sign.map Sign.isBreak) :
    c = some '\n' ↔ sign = some .lineBreak := by
  have newline : c = some '\n' ↔ c.map Text.isNewline = some true := by cases c <;> simp [Text.isNewline]
  have breaks : sign = some .lineBreak ↔ sign.map Sign.isBreak = some true := by
    rcases sign with _ | sign
    · simp
    · cases sign <;> simp [Sign.isBreak]
  rw [newline, breaks, same]

theorem signed_append (a b : List Sign) (x y : Chars) (before : Signed a x) (behind : Signed b y) :
    Signed (a ++ b) (x ++ y) := by
  have broken : Broken (x ++ y) ↔ Severed (a ++ b) := by
    have parts : Broken (x ++ y) ↔ Broken x ∨ Broken y ∨
        ((gapless x).getLast? = some '\n' ∧ (gapless y).head? = some '\n') := by
      have seam := single_append '\n' (gapless x) (gapless y)
      rw [← gapless_append, ← whole_iff, ← whole_iff, ← whole_iff] at seam
      tauto
    rw [parts, severed_append, before.broken, behind.broken]
    by_cases left : Severed a
    · simp [left]
    · by_cases right : Severed b
      · simp [right]
      · rw [newline_iff _ _ (before.last left), newline_iff _ _ (behind.first right)]
  have unsevered (whole : ¬ Severed (a ++ b)) : ¬ Severed a ∧ ¬ Severed b := by
    rw [severed_append] at whole
    exact ⟨fun left => whole (.inl left), fun right => whole (.inr (.inl right))⟩
  refine ⟨?_, broken, fun whole => ?_, fun whole => ?_⟩
  · rw [seen_append, before.seen, behind.seen, List.mem_append]
  · obtain ⟨left, right⟩ := unsevered whole
    rw [gapless_append, List.head?_append, List.head?_append, Option.map_or, Option.map_or, before.first left,
      behind.first right]
  · obtain ⟨left, right⟩ := unsevered whole
    rw [gapless_append, List.getLast?_append, List.getLast?_append, Option.map_or, Option.map_or, before.last left,
      behind.last right]

theorem signed_severed (signs : List Sign) (w : Chars) (seen : Seen w ↔ .ink ∈ signs) (severed : Severed signs)
    (broken : Broken w) : Signed signs w :=
  ⟨seen, iff_of_true broken severed, fun whole => absurd severed whole, fun whole => absurd severed whole⟩

theorem solid_newline (c : Option Char) (solid : SolidAt c) : c.map Text.isNewline = some false := by
  cases c with
  | none => cases solid
  | some c =>
      have other : c ≠ '\n' := by
        rintro rfl
        cases solid
      simpa [Text.isNewline] using other

theorem signed_ink (w : Chars) (whole : ¬ Broken w) (leads : Leads w) (trails : Trails w) : Signed [.ink] w where
  seen := iff_of_true (leads_seen w leads) List.mem_cons_self
  broken := iff_of_false whole (by decide)
  first _ := solid_newline _ leads
  last _ := solid_newline _ trails

instance : DecidablePred Seen := fun w => decidable_of_iff (Text.isBlankText w = false) (seen_iff w).symm

instance : DecidablePred Gaps := fun w => inferInstanceAs (Decidable (gapless w = []))

-- A text on one line.
def lineSigns (w : Chars) : List Sign := if Seen w then [.ink] else if Gaps w then [] else [.faint]

theorem line_signs_same (a b : Chars) (seen : Seen a ↔ Seen b) (gaps : Gaps a ↔ Gaps b) : lineSigns a = lineSigns b :=
  if_congr seen rfl (if_congr gaps rfl rfl)

theorem gaps_unseen (w : Chars) (gaps : Gaps w) : ¬ Seen w := by
  rw [seen_gapless, show gapless w = [] from gaps]
  simp [Seen]

theorem line_signs_cases (w : Chars) : (Gaps w ∧ lineSigns w = []) ∨
    (¬ Gaps w ∧ ∃ sign, lineSigns w = [sign] ∧ sign.isBreak = false ∧ sign ≠ .parted) := by
  by_cases gaps : Gaps w
  · exact .inl ⟨gaps, by rw [lineSigns, if_neg (gaps_unseen w gaps), if_pos gaps]⟩
  · refine .inr ⟨gaps, ?_⟩
    rw [lineSigns, if_neg gaps]
    split
    · exact ⟨.ink, rfl, rfl, by decide⟩
    · exact ⟨.faint, rfl, rfl, by decide⟩

theorem signed_line (w : Chars) (free : '\n' ∉ w) : Signed (lineSigns w) w := by
  have seen : Seen w ↔ .ink ∈ lineSigns w := by
    unfold lineSigns
    split_ifs with seen gaps
    · exact iff_of_true seen List.mem_cons_self
    · exact iff_of_false seen (by decide)
    · exact iff_of_false seen (by decide)
  have other : ∀ c ∈ gapless w, Text.isNewline c = false := fun c member => by
    have inside := (List.mem_filter.mp member).1
    simpa [Text.isNewline] using fun same : c = '\n' => free (same ▸ inside)
  have whole : ¬ Broken w := whole_free w free
  rcases line_signs_cases w with ⟨gaps, none⟩ | ⟨some, sign, one, line, apart⟩
  · have empty : gapless w = [] := gaps
    rw [none] at seen ⊢
    exact ⟨seen, iff_of_false whole (by decide), fun _ => by rw [empty]; rfl, fun _ => by rw [empty]; rfl⟩
  · rw [one] at seen ⊢
    refine ⟨seen, iff_of_false whole ?_, fun _ => ?_, fun _ => ?_⟩
    · rintro (parted | twice)
      · exact apart (List.mem_singleton.mp parted).symm
      · exact absurd twice.length_le (by simp)
    · obtain ⟨c, rest, shape⟩ := List.exists_cons_of_ne_nil some
      rw [shape, List.head?_cons, Option.map_some, other c (by simp [shape]), List.head?_cons, Option.map_some, line]
    · obtain ⟨c, last⟩ := Option.ne_none_iff_exists'.mp fun none => some (List.getLast?_eq_none_iff.mp none)
      rw [last, Option.map_some, other c (List.mem_of_getLast? last), List.getLast?_singleton, Option.map_some, line]

/-- What is written with some signs behind some output: unless it is severed, a newline comes first only behind a
gap. -/
structure Written (signs : List Sign) (output w : Chars) : Prop where
  signed : Signed signs w
  opens : ¬ Severed signs → w.head? = some '\n' → Render.endsInGap output = true

theorem seen_join_iff (a b : Chars) : Seen (join a b) ↔ Seen a ∨ Seen b := by
  refine ⟨fun ⟨c, member, solid⟩ => ?_, seen_join a b⟩
  obtain ⟨i, j, k, left, right, shape, -⟩ := join_runs a b
  rw [shape, List.mem_append, List.mem_append] at member
  rcases member with before | newline | behind
  · exact .inl ⟨c, left ▸ List.mem_append_left _ before, solid⟩
  · rw [(List.mem_replicate.mp newline).2] at solid
    cases solid
  · exact .inr ⟨c, right ▸ List.mem_append_right _ behind, solid⟩

theorem written_join (a b : List Sign) (output w : Chars) (before : Written a [] output) (piece : Written b output w) :
    Written (a ++ b) [] (join output w) := by
  have seen : Seen (join output w) ↔ .ink ∈ a ++ b := by
    rw [seen_join_iff, before.signed.seen, piece.signed.seen, List.mem_append]
  have severed (one : Severed (a ++ b)) (broken : Broken (join output w)) : Written (a ++ b) [] (join output w) :=
    ⟨signed_severed _ _ seen one broken, fun whole => absurd one whole⟩
  by_cases left : Severed a
  · exact severed ((severed_append a b).mpr (.inl left)) (broken_join _ _ (before.signed.broken.mpr left))
  · by_cases right : Severed b
    · exact severed ((severed_append a b).mpr (.inr (.inl right)))
        (broken_join_behind _ _ (piece.signed.broken.mpr right))
    · have whole (signs : List Sign) (w : Chars) (signed : Signed signs w) (one : ¬ Severed signs) : ¬ Broken w :=
        fun broken => one (signed.broken.mp broken)
      rw [join_whole output w (whole a _ before.signed left) (whole b _ piece.signed right) (piece.opens right)]
      refine ⟨signed_append a b _ _ before.signed piece.signed, fun _ start => ?_⟩
      cases output with
      | nil => exact piece.opens right start
      | cons c rest => exact before.opens left start

end Downmark
