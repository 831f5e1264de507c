import Downmark.Proofs.EscapedText
import Downmark.Proofs.Unescaped
import Downmark.Proofs.Sparse
/-!
Lines that open a block, and texts whose lines do so at most where they are indented. Main statement: every escaped
text is such a text, with an indented line only if the text itself has one, and so is what is joined from them.
-/

set_option autoImplicit false

namespace Downmark.Escape

inductive Marker : Chars → Prop where
  | heading (signs : Nat) (some : 1 ≤ signs) (few : signs ≤ 6) : Marker (List.replicate signs '#')
  | bullet (c : Char) (listed : c = '-' ∨ c = '+') : Marker [c]
  | number (digits : Chars) (some : digits ≠ []) (few : digits.length ≤ 9)
      (all : ∀ d ∈ digits, Text.isAsciiDigit d) : Marker (digits ++ ['.'])

-- A line that opens a block or, by underlining it, makes a heading of the line before. An underline may end in gaps.
inductive Opener : Chars → Prop where
  | marked (marker rest : Chars) (known : Marker marker) (ends : MarkerEnds rest) : Opener (marker ++ rest)
  | quote (rest : Chars) : Opener ('>' :: rest)
  | underline (c : Char) (listed : c = '=' ∨ c = '-') (more : Nat) (gaps : Chars) (blank : ∀ g ∈ gaps, Text.isGap g) :
      Opener (List.replicate (more + 1) c ++ gaps)

theorem ascii_decimal (d : Char) (digit : Text.isAsciiDigit d) : Text.isDecimal d := by
  simp [Text.isDecimal, Text.decimal?, digit]

theorem opener_block (line : Chars) (opener : Opener line) : BlockStart line := by
  cases opener with
  | marked marker rest known ends =>
      cases known with
      | heading signs some few => exact .heading signs rest some few ends
      | bullet c listed =>
          rcases listed with rfl | rfl
          · exact .dash rest
          · exact .plus rest ends
      | number digits some few all =>
          rw [List.append_assoc]
          exact .number digits rest some (fun d member => ascii_decimal d (all d member)) ends
  | quote rest => exact .quote rest
  | underline c listed more gaps blank =>
      rw [List.replicate_succ, List.cons_append]
      rcases listed with rfl | rfl
      · exact .underline _
      · exact .dash _

theorem marker_ends_append (rest more : Chars) (ends : MarkerEnds (rest ++ more)) : MarkerEnds rest := by
  cases rest with
  | nil => trivial
  | cons c rest => exact ends

theorem marker_ends_gap (rest : Chars) : MarkerEnds rest ↔ rest = [] ∨ rest.head?.any Text.isGap := by
  cases rest with
  | nil => simp [MarkerEnds]
  | cons c rest => simp [MarkerEnds, Text.isGap]

theorem marker_part (p q : Chars) (known : Marker (p ++ q)) (some : p ≠ []) :
    Marker p ∨ ∀ c ∈ p, Text.isAsciiDigit c := by
  generalize whole : p ++ q = marker at known
  cases known with
  | heading signs _ few =>
      obtain ⟨short, same, -⟩ := List.append_eq_replicate_iff.mp whole
      rw [same]
      exact .inl (.heading _ (List.length_pos_iff.mpr some) (by omega))
  | bullet c listed =>
      rcases List.append_eq_singleton_iff.mp whole with ⟨none, -⟩ | ⟨same, -⟩
      · exact absurd none some
      · exact .inl (same ▸ .bullet c listed)
  | number digits full few all =>
      rcases List.append_eq_append_iff.mp whole with ⟨rest, same, -⟩ | ⟨rest, same, period⟩
      · exact .inr fun c member => all c (by simp [same, member])
      · cases rest with
        | nil =>
            rw [List.append_nil] at same
            exact .inr (same ▸ all)
        | cons c rest =>
            obtain ⟨rfl, none, -⟩ : '.' = c ∧ rest = [] ∧ q = [] := by simpa using period
            rw [same, none]
            exact .inl (.number digits full few all)


theorem opener_part (p q : Chars) (opener : Opener (p ++ q)) (some : p ≠ []) :
    Opener p ∨ ∀ c ∈ p, Text.isAsciiDigit c := by
  generalize whole : p ++ q = line at opener
  cases opener with
  | marked marker rest known ends =>
      rcases List.append_eq_append_iff.mp whole with ⟨later, same, -⟩ | ⟨front, same, next⟩
      · subst same
        refine (marker_part p later known some).imp_left fun part => ?_
        rw [← List.append_nil p]
        exact .marked p [] part trivial
      · rw [same]
        exact .inl (.marked marker front known (marker_ends_append front q (next ▸ ends)))
  | quote rest =>
      cases p with
      | nil => exact absurd rfl some
      | cons c p =>
          obtain ⟨rfl, -⟩ := List.cons.inj whole
          exact .inl (.quote p)
  | underline c listed more gaps blank =>
      rcases List.append_eq_append_iff.mp whole with ⟨later, same, -⟩ | ⟨front, same, next⟩
      · obtain ⟨-, run, -⟩ := List.append_eq_replicate_iff.mp same.symm
        cases p with
        | nil => exact absurd rfl some
        | cons d p =>
            have line : Opener (List.replicate (p.length + 1) c ++ []) := .underline c listed p.length [] (by simp)
            rw [List.append_nil] at line
            exact .inl (run ▸ line)
      · rw [same]
        exact .inl (.underline c listed more front fun g member => blank g (by simp [next, member]))

theorem opener_gaps (line gaps : Chars) (opener : Opener line) (blank : ∀ g ∈ gaps, Text.isGap g) :
    Opener (line ++ gaps) := by
  cases opener with
  | marked marker rest known ends =>
      rw [List.append_assoc]
      refine .marked marker (rest ++ gaps) known ?_
      cases rest with
      | nil =>
          cases gaps with
          | nil => trivial
          | cons g gaps => exact (marker_ends_gap _).mpr (.inr (by simpa using blank g List.mem_cons_self))
      | cons c rest => exact ends
  | quote rest => exact .quote (rest ++ gaps)
  | underline c listed more others spaces =>
      rw [List.append_assoc]
      refine .underline c listed more (others ++ gaps) fun g member => ?_
      exact (List.mem_append.mp member).elim (spaces g) (blank g)

theorem marker_solid (marker : Chars) (known : Marker marker) : ∀ c ∈ marker, Text.isGap c = false := by
  cases known with
  | heading signs _ _ =>
      intro c member
      rw [List.eq_of_mem_replicate member]
      rfl
  | bullet c listed => rcases listed with rfl | rfl <;> simp [Text.isGap]
  | number digits _ _ all =>
      intro c member
      rcases List.mem_append.mp member with digit | period
      · exact decimal_not_gap c (ascii_decimal c (all c digit))
      · rw [List.mem_singleton.mp period]
        rfl

theorem opener_flush (line : Chars) (opener : Opener line) : line.head?.any Text.isGap = false ∧ line ≠ [] := by
  cases opener with
  | marked marker rest known ends =>
      have solid := marker_solid marker known
      have full : marker ≠ [] := by
        cases known with
        | heading signs some _ => simpa using by omega
        | bullet => simp
        | number => simp
      cases marker with
      | nil => exact absurd rfl full
      | cons c marker => simpa using solid c List.mem_cons_self
  | quote rest => exact ⟨rfl, by simp⟩
  | underline c listed more gaps _ => rcases listed with rfl | rfl <;> simp [List.replicate_succ, Text.isGap]

theorem solid_before (front : Chars) (g : Char) (rest solid tail : Chars) (whole : front ++ g :: rest = solid ++ tail)
    (gap : Text.isGap g) (unbroken : ∀ c ∈ solid, Text.isGap c = false) :
    ∃ before, front = solid ++ before ∧ tail = before ++ g :: rest := by
  rcases List.append_eq_append_iff.mp whole with ⟨later, same, next⟩ | ⟨before, same, next⟩
  · cases later with
    | nil => exact ⟨[], by simpa using same.symm, by simpa using next.symm⟩
    | cons c later =>
        obtain ⟨rfl, -⟩ := List.cons.inj next
        have other := unbroken g (by simp [same])
        rw [gap] at other
        cases other
  · exact ⟨before, same, next⟩

-- Where a gap stands there may be more of them.
theorem opener_wider (front : Chars) (g : Char) (gaps rest : Chars) (opener : Opener (front ++ g :: rest))
    (gap : Text.isGap g) (blank : ∀ g ∈ gaps, Text.isGap g) : Opener (front ++ g :: (gaps ++ rest)) := by
  generalize whole : front ++ g :: rest = line at opener
  cases opener with
  | marked marker tail known ends =>
      obtain ⟨before, rfl, rfl⟩ := solid_before front g rest marker tail whole gap (marker_solid marker known)
      rw [List.append_assoc]
      refine .marked marker _ known ?_
      cases before with
      | nil => exact (marker_ends_gap _).mpr (.inr gap)
      | cons c before => exact ends
  | quote tail =>
      obtain ⟨before, rfl, -⟩ := solid_before front g rest ['>'] tail whole gap (by simp [Text.isGap])
      exact .quote _
  | underline c listed more others spaces =>
      have unbroken : ∀ d ∈ List.replicate (more + 1) c, Text.isGap d = false := by
        intro d member
        rw [List.eq_of_mem_replicate member]
        rcases listed with rfl | rfl <;> rfl
      obtain ⟨before, rfl, rfl⟩ := solid_before front g rest _ others whole gap unbroken
      rw [List.append_assoc]
      refine .underline c listed more _ fun d member => ?_
      simp only [List.mem_append, List.mem_cons] at member spaces
      rcases member with first | same | inner | later
      · exact spaces d (.inl first)
      · exact same ▸ gap
      · exact blank d inner
      · exact spaces d (.inr (.inr later))

-- Escaping puts no backslash into what opens a block without losing it.
theorem opener_read (w s : Chars) (reads : Reads w s) (opener : Opener w) : Opener s := by
  cases opener with
  | marked marker rest known ends =>
      have unslashed : '\\' ∉ marker := by
        cases known with
        | heading signs _ _ => simp
        | bullet c listed => rcases listed with rfl | rfl <;> simp
        | number digits _ _ all =>
            intro member
            rcases List.mem_append.mp member with digit | period
            · exact absurd (all _ digit) (by decide)
            · simp at period
      obtain ⟨tail, rfl, left⟩ := reads_behind marker rest s reads unslashed
      refine .marked marker tail known ?_
      cases left with
      | nil => trivial
      | plain c _ _ _ _ => exact ends
      | slashed => rcases ends with same | same <;> cases same
  | quote rest =>
      obtain ⟨tail, rfl, -⟩ := reads_behind ['>'] rest s reads (by simp)
      exact .quote tail
  | underline c listed more gaps blank =>
      have unslashed : '\\' ∉ List.replicate (more + 1) c := by
        rcases listed with rfl | rfl <;> simp
      obtain ⟨tail, rfl, left⟩ := reads_behind _ gaps s reads unslashed
      have spaces : '\\' ∉ gaps := fun member => absurd (blank _ member) (by decide)
      rw [← List.append_nil gaps] at left
      obtain ⟨none, rfl, nothing⟩ := reads_behind gaps [] tail left spaces
      cases nothing
      rw [List.append_nil]
      exact .underline c listed more gaps blank

-- A line that opens a block only behind a gap, and only with an excuse.
def Tame (excuse : Prop) (line : Chars) : Prop :=
  Opener (Text.trimStart Text.isGap line) → line.head?.any Text.isGap ∧ excuse

def Harmless (excuse : Prop) (s : Chars) : Prop := ∀ line ∈ Text.lines s, Tame excuse line

-- The only excuse there will be: a text that has such a line itself.
def Indented (s : Chars) : Prop :=
  ∃ line ∈ Text.lines s, line.head?.any Text.isGap ∧ Opener (Text.trimStart Text.isGap line)

theorem margin_cases (l f : Chars) :
    Text.trimStart Text.isGap l = [] ∧ Text.trimStart Text.isGap (l ++ f) = Text.trimStart Text.isGap f ∨
      Text.trimStart Text.isGap l ≠ [] ∧ Text.trimStart Text.isGap (l ++ f) = Text.trimStart Text.isGap l ++ f := by
  rw [Text.trim_start_append]
  by_cases gone : Text.trimStart Text.isGap l = [] <;> simp [gone]

-- What goes on behind digits ends the number, or is a number by itself.
theorem opener_digits (digits f : Chars) (some : digits ≠ []) (all : ∀ d ∈ digits, Text.isAsciiDigit d)
    (opener : Opener (digits ++ f)) : (∃ rest, f = '.' :: rest ∧ MarkerEnds rest) ∨ Opener f := by
  have first (c : Char) (rest : Chars) (whole : digits ++ f = c :: rest) : Text.isAsciiDigit c := by
    cases digits with
    | nil => exact absurd rfl some
    | cons d ds => exact (List.cons.inj whole).1 ▸ all d List.mem_cons_self
  generalize whole : digits ++ f = line at opener
  cases opener with
  | quote rest => exact absurd (first '>' rest whole) (by decide)
  | underline c listed more gaps _ =>
      have digit := first c _ whole
      rcases listed with rfl | rfl <;> exact absurd digit (by decide)
  | marked marker rest known ends =>
      cases known with
      | heading signs one _ =>
          cases signs with
          | zero => cases one
          | succ n => exact absurd (first '#' _ whole) (by decide)
      | bullet c listed =>
          have digit := first c _ whole
          rcases listed with rfl | rfl <;> exact absurd digit (by decide)
      | number others _ few ones =>
          rw [List.append_assoc] at whole
          rcases List.append_eq_append_iff.mp whole with ⟨more, same, later⟩ | ⟨front, same, next⟩
          · by_cases none : more = []
            · subst none
              exact .inl ⟨rest, later, ends⟩
            · have short : more.length ≤ 9 := by
                rw [same, List.length_append] at few
                omega
              have marker : Marker (more ++ ['.']) :=
                .number more none short fun d member => ones d (by simp [same, member])
              refine .inr ?_
              rw [later, ← List.append_assoc]
              exact .marked _ rest marker ends
          · cases front with
            | nil => exact .inl ⟨rest, by simpa using next.symm, ends⟩
            | cons c front =>
                obtain ⟨rfl, -⟩ := List.cons.inj next
                exact absurd (all '.' (by simp [same])) (by decide)

section

variable {excuse : Prop}

theorem tame_gaps (gaps : Chars) (blank : ∀ g ∈ gaps, Text.isGap g) : Tame excuse gaps := by
  intro opener
  rw [Text.trim_start_all Text.isGap gaps blank] at opener
  exact absurd rfl (opener_flush [] opener).2

theorem tame_flush (line : Chars) (tame : Tame excuse line) : ¬ Opener line := by
  intro opener
  have flush := (opener_flush line opener).1
  rw [← Text.drop_none Text.isGap line flush] at opener
  rw [(tame opener).1] at flush
  cases flush

theorem tame_append (l f : Chars) (before : Tame excuse l) (after : Tame excuse f)
    (apart : isNumberSoFar l = true → ∀ rest, f = '.' :: rest → ¬ MarkerEnds rest) : Tame excuse (l ++ f) := by
  intro opener
  rcases margin_cases l f with ⟨blank, same⟩ | ⟨some, same⟩
  · have excused := after (same ▸ opener)
    cases l with
    | nil => exact excused
    | cons g l =>
        have gap := List.dropWhile_eq_nil_iff.mp blank g List.mem_cons_self
        exact ⟨by simpa using gap, excused.2⟩
  · rw [same] at opener
    rcases opener_part _ f opener some with front | digits
    · cases l with
      | nil => exact absurd rfl some
      | cons c l => exact before front
    · rcases opener_digits _ f some digits opener with ⟨rest, period, ends⟩ | here
      · refine absurd ends (apart ?_ rest period)
        have number : (Text.trimStart Text.isGap l).all Text.isDecimal = true :=
          List.all_eq_true.mpr fun d member => ascii_decimal d (digits d member)
        simp [isNumberSoFar, some, number]
      · exact absurd here (tame_flush f after)

theorem tame_shorter (l gaps : Chars) (blank : ∀ g ∈ gaps, Text.isGap g) (tame : Tame excuse (l ++ gaps)) :
    Tame excuse l := by
  intro opener
  rcases margin_cases l gaps with ⟨none, -⟩ | ⟨some, same⟩
  · exact absurd none (opener_flush _ opener).2
  · have excused := tame (same ▸ opener_gaps _ gaps opener blank)
    cases l with
    | nil => exact absurd rfl some
    | cons c l => exact excused

theorem tame_narrower (l : Chars) (g : Char) (gaps f : Chars) (gap : Text.isGap g) (blank : ∀ g ∈ gaps, Text.isGap g)
    (tame : Tame excuse (l ++ g :: (gaps ++ f))) : Tame excuse (l ++ g :: f) := by
  intro opener
  have first : (l ++ g :: f).head? = (l ++ g :: (gaps ++ f)).head? := by
    cases l <;> rfl
  rw [first]
  apply tame
  rcases margin_cases l (g :: f) with ⟨none, same⟩ | ⟨some, same⟩
  · rw [same, Text.trimStart, List.dropWhile_cons_of_pos gap] at opener
    rw [Text.trim_start_append, none, if_pos List.isEmpty_nil, Text.trimStart, List.dropWhile_cons_of_pos gap,
      List.dropWhile_append_of_pos blank]
    exact opener
  · rw [same] at opener
    rw [Text.trim_start_append, if_neg (by simpa using some)]
    exact opener_wider _ g gaps f opener gap blank

-- However far the line is indented, and if gaps are cut from its end.
theorem tame_indented (n : Nat) (rest after : Chars) (right : ∀ g ∈ after, Text.isGap g)
    (tame : Tame excuse (Text.spaces n ++ rest ++ after)) (opener : Opener rest) : 0 < n ∧ excuse := by
  have spaces : ∀ g ∈ Text.spaces n, Text.isGap g := by
    intro g space
    rw [List.eq_of_mem_replicate space]
    rfl
  have whole := opener_gaps rest after opener right
  obtain ⟨flush, -⟩ := opener_flush _ whole
  rw [Tame, List.append_assoc, Text.trimStart, List.dropWhile_append_of_pos spaces, Text.drop_none _ _ flush] at tame
  obtain ⟨gap, excused⟩ := tame whole
  refine ⟨Nat.pos_of_ne_zero ?_, excused⟩
  rintro rfl
  rw [show Text.spaces 0 ++ (rest ++ after) = rest ++ after from rfl, flush] at gap
  cases gap

theorem harmless_seam (a b : Chars) : Harmless excuse (a ++ b) ↔
    (∀ line ∈ (Text.lines a).dropLast, Tame excuse line) ∧ Tame excuse (Text.lastLine a ++ Text.firstLine b) ∧
      ∀ line ∈ (Text.lines b).tail, Tame excuse line := by
  rw [Harmless, Text.lines_append]
  simp only [List.mem_append, List.mem_cons, or_imp, forall_and, forall_eq]

theorem harmless_last (s : Chars) :
    Harmless excuse s ↔ (∀ line ∈ (Text.lines s).dropLast, Tame excuse line) ∧ Tame excuse (Text.lastLine s) := by
  have whole := @harmless_seam excuse s []
  simpa [Text.firstLine, Text.lines_nil] using whole

theorem harmless_first (s : Chars) :
    Harmless excuse s ↔ Tame excuse (Text.firstLine s) ∧ ∀ line ∈ (Text.lines s).tail, Tame excuse line := by
  have whole := @harmless_seam excuse [] s
  simpa [Text.lastLine, Text.ending, Text.lines_nil] using whole

theorem harmless_append (a b : Chars) (before : Harmless excuse a) (after : Harmless excuse b)
    (apart : isNumberSoFar (Text.lastLine a) = true → startsWithMarkerEnd b = false) : Harmless excuse (a ++ b) := by
  obtain ⟨front, last⟩ := (harmless_last a).mp before
  obtain ⟨first, back⟩ := (harmless_first b).mp after
  refine (harmless_seam a b).mpr ⟨front, tame_append _ _ last first ?_, back⟩
  intro number rest period ends
  have marker := marker_end_first_line b rest period ends
  rw [apart number] at marker
  cases marker

section

variable (gaps : Chars) (blank : ∀ g ∈ gaps, Text.isGap g)

include blank

theorem gaps_free : '\n' ∉ gaps := fun member => absurd (blank _ member) (by decide)

theorem harmless_gaps (a : Chars) (harmless : Harmless excuse a) : Harmless excuse (a ++ gaps) := by
  refine harmless_append a gaps harmless ?_ ?_
  · intro line member
    rw [Text.lines_free gaps (gaps_free gaps blank), List.mem_singleton] at member
    exact member ▸ tame_gaps gaps blank
  · intro _
    cases gaps with
    | nil => rfl
    | cons g gaps =>
        have other : g ≠ '.' := by
          rintro rfl
          exact absurd (blank '.' List.mem_cons_self) (by decide)
        cases ends : startsWithMarkerEnd (g :: gaps) with
        | false => rfl
        | true =>
            obtain ⟨rest, same⟩ := marker_end_period _ ends
            exact absurd (List.cons.inj same).1 other

theorem harmless_shorter (a : Chars) (harmless : Harmless excuse (a ++ gaps)) : Harmless excuse a := by
  obtain ⟨front, last, -⟩ := (harmless_seam a gaps).mp harmless
  rw [Text.first_line_free gaps (gaps_free gaps blank)] at last
  exact (harmless_last a).mpr ⟨front, tame_shorter _ gaps blank last⟩

theorem harmless_narrower (a : Chars) (g : Char) (b : Chars) (gap : Text.isGap g)
    (harmless : Harmless excuse (a ++ g :: (gaps ++ b))) : Harmless excuse (a ++ g :: b) := by
  have free : '\n' ∉ g :: gaps := gaps_free (g :: gaps) (List.forall_mem_cons.mpr ⟨gap, blank⟩)
  have single : '\n' ∉ [g] := gaps_free [g] (by simpa using gap)
  obtain ⟨front, middle, back⟩ := (harmless_seam a _).mp harmless
  refine (harmless_seam a _).mpr ⟨front, ?_, ?_⟩
  · have wide := Text.first_line_append (g :: gaps) b free
    have narrow := Text.first_line_append [g] b single
    rw [List.singleton_append] at narrow
    rw [narrow]
    rw [List.cons_append] at wide
    rw [wide] at middle
    exact tame_narrower _ g gaps _ gap blank middle
  · have wide := Text.lines_append (g :: gaps) b
    have narrow := Text.lines_append [g] b
    rw [Text.lines_free _ free] at wide
    rw [Text.lines_free _ single] at narrow
    rw [List.cons_append] at wide
    rw [wide] at back
    rw [List.singleton_append] at narrow
    rw [narrow]
    exact back

end

theorem harmless_break (a b : Chars) : Harmless excuse (a ++ '\n' :: b) ↔ Harmless excuse a ∧ Harmless excuse b := by
  simp only [Harmless, Text.lines_break, List.mem_append, or_imp, forall_and]

theorem harmless_nil : Harmless excuse [] := by
  intro line member
  rw [Text.lines_nil, List.mem_singleton] at member
  exact member ▸ tame_gaps [] (by simp)

theorem harmless_breaks (a b : Chars) (k : Nat) :
    Harmless excuse (a ++ (List.replicate (k + 1) '\n' ++ b)) ↔ Harmless excuse a ∧ Harmless excuse b := by
  induction k generalizing a with
  | zero => exact harmless_break a b
  | succ k ih =>
      have rest := ih []
      rw [List.nil_append] at rest
      rw [List.replicate_succ, List.cons_append, harmless_break, rest]
      exact and_congr_right fun _ => and_iff_right harmless_nil

theorem harmless_core (s : Chars) (harmless : Harmless excuse s) : Harmless excuse (Text.trim Text.isNewline s) := by
  have behind (run t : Chars) (all : ∀ c ∈ run, Text.isNewline c) (whole : Harmless excuse (run ++ t)) :
      Harmless excuse t := by
    rw [newline_run run all] at whole
    cases length : run.length with
    | zero => simpa [length] using whole
    | succ k =>
        rw [length] at whole
        exact ((harmless_breaks [] t k).mp whole).2
  have before (run t : Chars) (all : ∀ c ∈ run, Text.isNewline c) (whole : Harmless excuse (t ++ run)) :
      Harmless excuse t := by
    rw [newline_run run all] at whole
    cases length : run.length with
    | zero => simpa [length] using whole
    | succ k =>
        rw [length, ← List.append_nil (List.replicate _ _)] at whole
        exact ((harmless_breaks t [] k).mp whole).1
  obtain ⟨front, left, newlines⟩ := Text.trim_start_run Text.isNewline s
  obtain ⟨back, right, others⟩ := Text.trim_end_run Text.isNewline (Text.trimStart Text.isNewline s)
  rw [left] at harmless
  have rest := behind front _ newlines harmless
  rw [right] at rest
  exact before back _ others rest

theorem harmless_apart (u content : Chars) (before : Harmless excuse u) (harmless : Harmless excuse content) :
    Harmless excuse (u ++ Block.apart content) := by
  have shape : u ++ Block.apart content =
      u ++ (List.replicate 2 '\n' ++ (content ++ (List.replicate 2 '\n' ++ []))) := by
    simp [Block.apart, List.replicate]
  rw [shape, harmless_breaks u _ 1, harmless_breaks content [] 1]
  exact ⟨before, harmless, harmless_nil⟩

-- Joining keeps a break where there is one and makes none, so no line gets a new beginning.
theorem harmless_join (u a b : Chars) (harmless : Harmless excuse (u ++ (a ++ b))) :
    Harmless excuse (u ++ join a b) := by
  obtain ⟨i, j, k, left, right, joined, -, none⟩ := join_runs a b
  rw [joined]
  generalize Text.trimEnd Text.isNewline a = kept at left ⊢
  generalize Text.trimStart Text.isNewline b = rest at right ⊢
  have shape : u ++ (a ++ b) = u ++ kept ++ (List.replicate (i + j) '\n' ++ rest) := by
    rw [left, right, ← List.replicate_append_replicate]
    simp only [List.append_assoc]
  rw [shape] at harmless
  rw [← List.append_assoc]
  cases breaks : i + j with
  | zero => rwa [none.mpr breaks, ← breaks]
  | succ m =>
      obtain ⟨n, rfl⟩ := Nat.exists_eq_succ_of_ne_zero fun gone => absurd (none.mp gone) (by omega)
      rw [breaks, harmless_breaks] at harmless
      exact (harmless_breaks _ rest n).mpr harmless

theorem reads_lines (w s : Chars) (reads : Reads w s) : ∀ line ∈ Text.lines w, ∃ v ∈ Text.lines s, Reads line v := by
  induction w using Text.line_induction generalizing s with
  | last line free =>
      have single : '\n' ∉ s := fun member => free ((reads_mem line s reads '\n' member))
      rw [Text.lines_free line free, Text.lines_free s single]
      simpa using reads
  | more line rest free ih =>
      obtain ⟨first, later, rfl, here, there⟩ := reads_cut line _ s reads rfl
      obtain ⟨back, rfl, below⟩ := reads_behind ['\n'] rest later there (by simp)
      have single : '\n' ∉ first := fun member => free (reads_mem line first here '\n' member)
      intro w member
      rw [Text.lines_newline line rest free] at member
      rw [List.singleton_append, Text.lines_newline first back single]
      rcases List.mem_cons.mp member with rfl | found
      · exact ⟨first, List.mem_cons_self, here⟩
      · obtain ⟨v, listed, same⟩ := ih back below w found
        exact ⟨v, List.mem_cons_of_mem _ listed, same⟩

-- A line that opens a block only behind its gaps was read with the gaps, since no escape can be among them.
theorem harmless_escaped (w s : Chars) (reads : Reads w s) (closed : ∀ line ∈ Text.lines w, ¬ BlockStart line)
    (excused : Indented s → excuse) : Harmless excuse w := by
  intro line member opener
  obtain ⟨v, listed, same⟩ := reads_lines w s reads line member
  obtain ⟨gaps, whole, blank⟩ := Text.trim_start_run Text.isGap line
  cases gaps with
  | nil =>
      rw [List.nil_append] at whole
      exact absurd (opener_block line (whole ▸ opener)) (closed line member)
  | cons g gaps =>
      have unslashed : '\\' ∉ g :: gaps := fun slash => absurd (blank '\\' slash) (by decide)
      have gap := blank g List.mem_cons_self
      rw [whole] at same
      obtain ⟨rest, rfl, read⟩ := reads_behind (g :: gaps) _ v same unslashed
      have found := opener_read _ rest read opener
      refine ⟨by rw [whole]; simpa using gap, excused ⟨_, listed, by simpa using gap, ?_⟩⟩
      rw [Text.trimStart, List.dropWhile_append_of_pos blank,
        Text.drop_none Text.isGap rest (opener_flush rest found).1]
      exact found

theorem markdown_harmless (s ahead : Chars) (excused : Indented s → excuse) : Harmless excuse (markdown s ahead) :=
  harmless_escaped _ s (markdown_reads s ahead) (markdown_no_block s ahead) excused

theorem preformatted_harmless (s ahead : Chars) (excused : Indented s → excuse) :
    Harmless excuse (preformatted s ahead) :=
  harmless_escaped _ s (preformatted_reads s ahead) (preformatted_no_block s ahead) excused

end

end Downmark.Escape
