import Downmark.Proofs.Joined
import Downmark.Proofs.StrayMarks
/-!
Going through a text that is written piece by piece, with what is known of its last line. Lines are broken by a
backslash only, and no line begins like an underline. Main statement: of such a text, a backslash is stray exactly if
a line was broken and the last line is blank.
-/

set_option autoImplicit false

namespace Downmark.Escape

open Text

-- Where a reader stands who goes through a text, as far as the next break of a line is concerned.
inductive Spot where
  | within
  /-- Behind a backslash that is not shielded. -/
  | slash
  /-- Right behind a break. -/
  | fresh
  /-- Behind a break, with nothing but white space since. -/
  | hanging
deriving DecidableEq

namespace Spot

def Hangs (spot : Spot) : Prop := spot = fresh ∨ spot = hanging

instance (spot : Spot) : Decidable spot.Hangs := inferInstanceAs (Decidable (_ ∨ _))

/-- Lines are broken behind a backslash only, and none begins with the sign of an underline. -/
def next (spot : Spot) (c : Char) : Option Spot :=
  if spot = slash then
    if isPunctuation c then some within else if c = '\n' then some fresh else none
  else if c = '\\' then some slash
  else if c = '\n' ∨ (spot = fresh ∧ (c = '=' ∨ c = '-')) then none
  else if isBlank c = true ∧ spot.Hangs then some hanging
  else some within

def walk (spot : Spot) (s : Chars) : Option Spot := s.foldlM next spot

theorem walk_append (spot : Spot) (a b : Chars) : spot.walk (a ++ b) = (spot.walk a).bind fun later => later.walk b :=
  List.foldlM_append

theorem walk_cons (spot : Spot) (c : Char) (s : Chars) :
    spot.walk (c :: s) = (spot.next c).bind fun later => later.walk s :=
  List.foldlM_cons

theorem next_slash (spot : Spot) (other : spot ≠ slash) : spot.next '\\' = some slash := by simp [next, other]

theorem next_mark (c : Char) (mark : isPunctuation c = true) : slash.next c = some within := by simp [next, mark]

theorem next_break : slash.next '\n' = some fresh := by decide

theorem next_blank (spot : Spot) (other : spot ≠ slash) (c : Char) (blank : isBlank c = true) (inside : c ≠ '\n') :
    ∃ later ≠ slash, later ≠ fresh ∧ spot.next c = some later ∧ (later.Hangs ↔ spot.Hangs) ∧
      (spot ≠ fresh → later = spot) := by
  have common (d : Char) (solid : isBlank d = false) : c ≠ d := by
    rintro rfl
    rw [blank] at solid
    cases solid
  have plain := common '\\' (by decide)
  have double := common '=' (by decide)
  have dash := common '-' (by decide)
  by_cases hangs : spot.Hangs
  · have step : spot.next c = some hanging := by simp [next, *]
    exact ⟨hanging, by decide, by decide, step, iff_of_true (.inr rfl) hangs, fun start =>
      (hangs.resolve_left start).symm⟩
  · have step : spot.next c = some within := by simp [next, *]
    refine ⟨within, by decide, by decide, step, iff_of_false (by decide) hangs, fun _ => ?_⟩
    cases spot with
    | within => rfl
    | slash => exact absurd rfl other
    | fresh => exact absurd (.inl rfl) hangs
    | hanging => exact absurd (.inr rfl) hangs

theorem next_solid (spot : Spot) (other : spot ≠ slash) (c : Char) (solid : isBlank c = false) (plain : c ≠ '\\')
    (unruled : spot = fresh → c ≠ '=' ∧ c ≠ '-') : spot.next c = some within := by
  have inside : c ≠ '\n' := by
    rintro rfl
    cases solid
  have free : ¬ (spot = fresh ∧ (c = '=' ∨ c = '-')) := fun both => both.2.elim (unruled both.1).1 (unruled both.1).2
  simp [next, other, plain, inside, free, solid]

-- All that a reader can meet next, unless it stands behind a backslash.
theorem next_cases (spot later : Spot) (other : spot ≠ slash) (c : Char) (plain : c ≠ '\\')
    (step : spot.next c = some later) :
    c ≠ '\n' ∧ later ≠ slash ∧ (spot = fresh → c ≠ '=' ∧ c ≠ '-') ∧
      (later.Hangs ↔ spot.Hangs ∧ isBlank c = true) := by
  unfold next at step
  rw [if_neg other, if_neg plain] at step
  split at step
  · cases step
  · rename_i free
    rw [not_or, not_and, not_or] at free
    refine ⟨free.1, ?_, free.2, ?_⟩
    · split at step <;> cases step <;> decide
    · split at step
      · rename_i hangs
        cases step
        exact iff_of_true (.inr rfl) hangs.symm
      · rename_i stands
        cases step
        exact iff_of_false (by decide) fun both => stands both.symm

theorem slash_cases (later : Spot) (c : Char) (step : slash.next c = some later) :
    isPunctuation c = true ∧ later = within ∨ c = '\n' ∧ later = fresh := by
  unfold next at step
  rw [if_pos rfl] at step
  split at step
  · exact .inl ⟨‹_›, (Option.some.inj step).symm⟩
  · split at step
    · exact .inr ⟨‹_›, (Option.some.inj step).symm⟩
    · cases step

theorem walk_line (spot last : Spot) (s : Chars) (other : spot ≠ slash) (walked : spot.walk s = some last)
    (ends : last ≠ slash) (line : '\n' ∉ s) : last.Hangs ↔ spot.Hangs ∧ isBlankText s = true := by
  induction s using slash_induction generalizing spot with
  | nil =>
      cases walked
      simp [isBlankText]
  | plain c s plain ih =>
      rw [List.mem_cons, not_or] at line
      rw [walk_cons, Option.bind_eq_some_iff] at walked
      obtain ⟨later, step, rest⟩ := walked
      obtain ⟨-, beyond, -, hangs⟩ := next_cases spot later other c plain step
      rw [ih later beyond rest line.2, hangs]
      simp [isBlankText, and_assoc]
  | last =>
      rw [walk_cons, next_slash spot other] at walked
      cases walked
      exact absurd rfl ends
  | slashed c s ih _ =>
      simp only [List.mem_cons, not_or] at line
      rw [walk_cons, next_slash spot other, Option.bind_some, walk_cons, Option.bind_eq_some_iff] at walked
      obtain ⟨later, step, rest⟩ := walked
      rcases slash_cases later c step with ⟨mark, rfl⟩ | ⟨rfl, -⟩
      · rw [ih within (by decide) rest line.2.2]
        exact iff_of_false (fun both => absurd both.1 (by decide)) (by simp [isBlankText, isBlank])
      · exact absurd rfl line.2.1

-- A line that is broken ends in the backslash that breaks it.
theorem walk_broken (spot last : Spot) (s : Chars) (other : spot ≠ slash) (walked : spot.walk s = some last)
    (broken : '\n' ∈ s) : '\\' ∈ firstLine s := by
  induction s generalizing spot with
  | nil => cases broken
  | cons c s ih =>
      by_cases plain : c = '\\'
      · subst plain
        exact List.mem_cons_self
      · rw [walk_cons, Option.bind_eq_some_iff] at walked
        obtain ⟨later, step, rest⟩ := walked
        obtain ⟨inside, beyond, -, -⟩ := next_cases spot later other c plain step
        have line : firstLine (c :: s) = c :: firstLine s := List.takeWhile_cons_of_pos (by simpa using inside)
        rw [line]
        exact List.mem_cons_of_mem c (ih later beyond rest ((List.mem_cons.mp broken).resolve_left (Ne.symm inside)))

theorem content_slash (line : Chars) (slash : '\\' ∈ line) : IsContent line := by
  obtain ⟨run, whole, blank⟩ := trim_end_run isBlank line
  have inside : '\\' ∈ trimEnd isBlank line := by
    rw [whole] at slash
    refine (List.mem_append.mp slash).resolve_right fun member => ?_
    exact absurd (blank '\\' member) (by decide)
  exact ⟨fun all => absurd (all _ inside) (by decide), fun all => absurd (all _ inside) (by decide)⟩

theorem content_line (last : Spot) (line : Chars) (walked : fresh.walk line = some last) (ends : last ≠ slash)
    (free : '\n' ∉ line) : IsContent line ↔ ¬ last.Hangs := by
  have hangs := walk_line fresh last line (by decide) walked ends free
  rw [and_iff_right (show fresh.Hangs from .inl rfl)] at hangs
  rw [hangs, isBlankText, List.all_eq_true]
  refine ⟨fun content blank => blank_no_content line blank content, fun solid => ?_⟩
  by_cases plain : '\\' ∈ line
  · exact content_slash line plain
  cases line with
  | nil => exact absurd (List.forall_mem_nil _) solid
  | cons c line =>
      rw [walk_cons, Option.bind_eq_some_iff] at walked
      obtain ⟨later, step, -⟩ := walked
      have other : c ≠ '\\' := fun same => plain (same ▸ List.mem_cons_self)
      have unruled := (next_cases fresh later (by decide) c other step).2.2.1 rfl
      obtain ⟨run, whole, blank⟩ := trim_end_run isBlank (c :: line)
      cases kept : trimEnd isBlank (c :: line) with
      | nil =>
          rw [kept, List.nil_append] at whole
          exact absurd (whole ▸ blank) solid
      | cons d shown =>
          rw [kept] at whole
          obtain ⟨rfl, -⟩ := List.cons.inj whole
          unfold IsContent
          rw [kept]
          exact ⟨fun all => unruled.1 (all c List.mem_cons_self), fun all => unruled.2 (all c List.mem_cons_self)⟩

-- Only the last line can be without text: each other one ends in a backslash.
theorem fresh_content (last : Spot) (s : Chars) (walked : fresh.walk s = some last) (ends : last ≠ slash) :
    IsContent (firstLine s) ↔ '\n' ∈ s ∨ ¬ last.Hangs := by
  by_cases broken : '\n' ∈ s
  · exact iff_of_true (content_slash _ (walk_broken fresh last s (by decide) walked broken)) (.inl broken)
  · rw [first_line_free s broken, content_line last s walked ends broken, or_iff_right broken]

theorem walk_stray (spot last : Spot) (s : Chars) (other : spot ≠ slash) (walked : spot.walk s = some last)
    (ends : last ≠ slash) : (Stray s ↔ '\n' ∈ s ∧ last.Hangs) ∧ (BareSlash EscapesNothing s ↔ '\n' ∈ s) := by
  induction s using slash_induction generalizing spot with
  | nil => simp [Stray, bare_nil]
  | plain c s plain ih =>
      rw [walk_cons, Option.bind_eq_some_iff] at walked
      obtain ⟨later, step, rest⟩ := walked
      obtain ⟨inside, beyond, -, -⟩ := next_cases spot later other c plain step
      have newline : '\n' ∈ c :: s ↔ '\n' ∈ s := by simp [Ne.symm inside]
      rw [Stray, bare_plain _ c s plain, bare_plain _ c s plain, newline]
      exact ih later beyond rest
  | last =>
      rw [walk_cons, next_slash spot other] at walked
      cases walked
      exact absurd rfl ends
  | slashed c s ih _ =>
      rw [walk_cons, next_slash spot other, Option.bind_some, walk_cons, Option.bind_eq_some_iff] at walked
      obtain ⟨later, step, rest⟩ := walked
      rw [Stray, bare_pair, bare_pair]
      rcases slash_cases later c step with ⟨mark, rfl⟩ | ⟨rfl, rfl⟩
      · have inside : c ≠ '\n' := by
          rintro rfl
          exact absurd mark (by decide)
        have newline : '\n' ∈ '\\' :: c :: s ↔ '\n' ∈ s := by simp [Ne.symm inside]
        have hides : ¬ EscapesNothing (c :: s) := by simp [EscapesNothing, mark]
        rw [newline, or_iff_right (fun both => hides both.1), or_iff_right hides]
        exact ih within (by decide) rest
      · have nothing : EscapesNothing ('\n' :: s) := rfl
        have newline : '\n' ∈ '\\' :: '\n' :: s := by simp
        have behind := (ih fresh (by decide) rest).1
        rw [Stray] at behind
        refine ⟨?_, iff_of_true (.inl nothing) newline⟩
        rw [behind, goes_on_newline, fresh_content last s rest ends]
        by_cases more : '\n' ∈ s <;> simp [nothing, more]

-- A reader meets no two newlines in a row.
theorem walk_sparse (spot last : Spot) (before after : Chars) :
    spot.walk (before ++ '\n' :: '\n' :: after) ≠ some last := by
  intro walked
  rw [walk_append, Option.bind_eq_some_iff] at walked
  obtain ⟨here, -, rest⟩ := walked
  rw [walk_cons, Option.bind_eq_some_iff] at rest
  obtain ⟨later, step, rest⟩ := rest
  by_cases slashed : here = slash
  · rw [slashed, next_break] at step
    cases step
    cases rest
  · exact absurd rfl (next_cases here later slashed '\n' (by decide) step).1

theorem join_walk (spot last : Spot) (a b : Chars) (walked : spot.walk (a ++ b) = some last) : join a b = a ++ b := by
  obtain ⟨x, i, rfl, ended⟩ := last_run a
  obtain ⟨j, y, rfl, starts⟩ := first_run b
  have whole : x ++ List.replicate i '\n' ++ (List.replicate j '\n' ++ y) =
      x ++ (List.replicate (i + j) '\n' ++ y) := by
    rw [← List.replicate_append_replicate]
    simp only [List.append_assoc]
  have few : i + j ≤ 1 := by
    by_contra many
    obtain ⟨n, total⟩ := Nat.exists_eq_add_of_le (Nat.lt_of_not_le many)
    rw [whole, total, Nat.add_comm, List.replicate_succ, List.replicate_succ] at walked
    exact walk_sparse spot last _ _ walked
  have count : min 2 (max i j) = i + j := by omega
  rw [join_breaks x y ended starts, count, whole, List.append_assoc]

theorem walk_reads (w s : Chars) (reads : Reads w s) (line : '\n' ∉ s) (spot : Spot) (other : spot ≠ slash)
    (unruled : spot = fresh → w.head? ≠ some '=' ∧ w.head? ≠ some '-') :
    ∃ last ≠ slash, spot.walk w = some last ∧ (last.Hangs ↔ spot.Hangs ∧ isBlankText s = true) := by
  induction reads generalizing spot with
  | nil => exact ⟨spot, other, rfl, by simp [isBlankText]⟩
  | plain c w s common _ ih =>
      rw [List.mem_cons, not_or] at line
      have step : ∃ later ≠ slash, later ≠ fresh ∧ spot.next c = some later ∧
          (later.Hangs ↔ spot.Hangs ∧ isBlank c = true) := by
        cases blank : isBlank c with
        | true =>
            obtain ⟨later, beyond, stale, next, hangs, -⟩ := next_blank spot other c blank (Ne.symm line.1)
            exact ⟨later, beyond, stale, next, by simpa using hangs⟩
        | false =>
            refine ⟨within, by decide, by decide, next_solid spot other c blank common fun start => ?_, ?_⟩
            · simpa using unruled start
            · exact iff_of_false (by decide) (by simp)
      obtain ⟨later, beyond, stale, next, hangs⟩ := step
      obtain ⟨last, ends, walked, told⟩ := ih line.2 later beyond fun start => absurd start stale
      refine ⟨last, ends, by rw [walk_cons, next, Option.bind_some, walked], ?_⟩
      rw [told, hangs]
      simp [isBlankText, and_assoc]
  | slashed c w s mark _ ih =>
      rw [List.mem_cons, not_or] at line
      obtain ⟨last, ends, walked, told⟩ := ih line.2 within (by decide) fun start => absurd start (by decide)
      refine ⟨last, ends, ?_, ?_⟩
      · rw [walk_cons, next_slash spot other, Option.bind_some, walk_cons, next_mark c mark, Option.bind_some, walked]
      · have solid : isBlank c = false := by
          by_contra blank
          rw [punctuation_solid c (by simpa using blank)] at mark
          cases mark
        rw [told]
        exact iff_of_false (fun both => absurd both.1 (by decide)) (by simp [isBlankText, solid])

theorem gap_step (c : Char) (gap : isGap c) : isBlank c = true ∧ c ≠ '\n' := by
  rcases (by simpa [isGap] using gap : c = ' ' ∨ c = '\t') with rfl | rfl <;> decide

theorem walk_gaps (gaps : Chars) (all : ∀ c ∈ gaps, isGap c) (spot : Spot) (other : spot ≠ slash) :
    ∃ last ≠ slash, spot.walk gaps = some last ∧ (last.Hangs ↔ spot.Hangs) ∧ (spot ≠ fresh → last = spot) := by
  induction gaps generalizing spot with
  | nil => exact ⟨spot, other, rfl, Iff.rfl, fun _ => rfl⟩
  | cons c gaps ih =>
      obtain ⟨here, later⟩ := List.forall_mem_cons.mp all
      obtain ⟨blank, line⟩ := gap_step c here
      obtain ⟨mid, beyond, stale, next, hangs, same⟩ := next_blank spot other c blank line
      obtain ⟨last, ends, walked, told, stays⟩ := ih later mid beyond
      refine ⟨last, ends, by rw [walk_cons, next, Option.bind_some, walked], told.trans hangs,
        fun start => (stays stale).trans (same start)⟩

-- What a reader knows behind some gaps it knew before them.
theorem walk_gaps_back (spot last : Spot) (s gaps : Chars) (all : ∀ c ∈ gaps, isGap c)
    (walked : spot.walk (s ++ gaps) = some last) (ends : last ≠ slash) :
    ∃ near ≠ slash, spot.walk s = some near ∧ (near.Hangs ↔ last.Hangs) := by
  rw [walk_append, Option.bind_eq_some_iff] at walked
  obtain ⟨near, first, rest⟩ := walked
  have other : near ≠ slash := by
    rintro rfl
    cases gaps with
    | nil => exact ends (Option.some.inj rest).symm
    | cons c gaps =>
        obtain ⟨blank, line⟩ := gap_step c (all c List.mem_cons_self)
        rw [walk_cons, next, if_pos rfl, punctuation_solid c blank, if_neg Bool.false_ne_true, if_neg line] at rest
        cases rest
  obtain ⟨_, -, same, hangs, -⟩ := walk_gaps gaps all near other
  rw [rest] at same
  cases same
  exact ⟨near, other, first, hangs.symm⟩

end Spot

end Downmark.Escape
