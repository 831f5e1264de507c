import Mathlib.Data.List.TakeWhile
import Downmark.Render.Walk
import Downmark.Proofs.Lines
/-!
Pieces of output that begin with a blank line, joined one after the other. Main statements: between two
of them that leave anything there is just one blank line, and those that leave nothing leave no trace.
-/

set_option autoImplicit false

namespace Downmark

namespace Text

section

variable (p : Char → Bool) (s t : Chars)

theorem trim_start_append :
    trimStart p (s ++ t) = if (trimStart p s).isEmpty then trimStart p t else trimStart p s ++ t :=
  List.dropWhile_append

theorem trim_end_append :
    trimEnd p (s ++ t) = if (trimEnd p t).isEmpty then trimEnd p s else s ++ trimEnd p t := by
  unfold trimEnd
  rw [List.reverse_append, List.dropWhile_append]
  by_cases gone : (t.reverse.dropWhile p).isEmpty
  · rw [if_pos gone, if_pos (by simpa using gone)]
  · rw [if_neg gone, if_neg (by simpa using gone)]
    simp

theorem trim_start_all (all : ∀ c ∈ s, p c) : trimStart p s = [] := List.dropWhile_eq_nil_iff.mpr all

theorem trim_end_all (all : ∀ c ∈ s, p c) : trimEnd p s = [] := by
  rw [trimEnd, List.reverse_eq_nil_iff, List.dropWhile_eq_nil_iff]
  exact fun c member => all c (List.mem_reverse.mp member)

theorem trim_start_run : ∃ run, s = run ++ trimStart p s ∧ ∀ c ∈ run, p c :=
  ⟨s.takeWhile p, List.takeWhile_append_dropWhile.symm, fun c member => List.all_eq_true.mp List.all_takeWhile c member⟩

theorem trim_end_run : ∃ run, s = trimEnd p s ++ run ∧ ∀ c ∈ run, p c :=
  ⟨ending p s, (trim_end_ending p s).symm, ending_all p s⟩

theorem trim_end_none (stop : s.getLast?.any p = false) : trimEnd p s = s := by
  rw [trimEnd, drop_none p s.reverse (by rwa [List.head?_reverse]), List.reverse_reverse]

theorem trim_end_stop : (trimEnd p s).getLast?.any p = false := by
  rw [trimEnd, List.getLast?_reverse]
  exact drop_stop p s.reverse

theorem trim_end_empty (gone : trimEnd p s = []) : ∀ c ∈ s, p c := by
  obtain ⟨run, whole, all⟩ := trim_end_run p s
  rw [gone, List.nil_append] at whole
  exact whole ▸ all

theorem trim_both : trimStart p (trimEnd p s) = trim p s := by
  obtain ⟨run, whole, all⟩ := trim_start_run p s
  have stop := drop_stop p s
  rw [trim]
  generalize rest : trimStart p s = r at whole
  rw [← trimStart, rest] at stop
  rw [whole, trim_end_append]
  by_cases gone : trimEnd p r = []
  · rw [if_pos (by simpa using gone), trim_end_all p run all, gone]
    rfl
  · obtain ⟨tail, parts, -⟩ := trim_end_run p r
    rw [if_neg (by simpa using gone), trim_start_append, trim_start_all p run all, if_pos List.isEmpty_nil]
    refine drop_none p _ ?_
    cases kept : trimEnd p r with
    | nil => exact absurd kept gone
    | cons c u =>
        rw [parts, kept] at stop
        exact stop

end

end Text

-- What is left of some output between its runs of newlines.
def core (s : Chars) : Chars := Text.trim Text.isNewline s

theorem core_stops (s : Chars) : (core s).head?.any Text.isNewline = false ∧
    (core s).getLast?.any Text.isNewline = false := by
  refine ⟨?_, Text.trim_end_stop _ _⟩
  rw [core, ← Text.trim_both]
  exact Text.drop_stop _ _

def stacked (blocks : List Chars) : Chars :=
  ['\n', '\n'].intercalate (blocks.filter fun block => !block.isEmpty)

def StartsApart (s : Chars) : Prop := ∃ u, s = '\n' :: '\n' :: u

theorem stacked_empty (blocks : List Chars) : stacked ([] :: blocks) = stacked blocks := rfl

theorem stacked_single (block : Chars) : stacked [block] = block := by
  cases block <;> simp [stacked, List.intercalate]

theorem stacked_cons (block : Chars) (blocks : List Chars) : stacked (block :: blocks) =
    if block = [] then stacked blocks
    else if stacked blocks = [] then block else block ++ '\n' :: '\n' :: stacked blocks := by
  by_cases empty : block = []
  · rw [if_pos empty, empty, stacked_empty]
  · rw [if_neg empty]
    unfold stacked
    rw [List.filter_cons_of_pos (by simpa using empty)]
    cases rest : blocks.filter fun block => !block.isEmpty with
    | nil => simp [List.intercalate]
    | cons next more =>
        have some : next ≠ [] := by
          have kept : next ∈ blocks.filter fun block => !block.isEmpty := rest ▸ List.mem_cons_self
          simpa using (List.mem_filter.mp kept).2
        cases more <;> simp [List.intercalate, some]

-- Two blocks may be joined first, and the others after them.
theorem stacked_pair (a b : Chars) (blocks : List Chars) :
    stacked (stacked [a, b] :: blocks) = stacked (a :: b :: blocks) := by
  by_cases none : a = []
  · rw [none, stacked_empty, stacked_single, stacked_empty]
  · by_cases empty : b = []
    · rw [stacked_cons a [b], stacked_single, if_neg none, if_pos empty, stacked_cons a blocks,
        stacked_cons a (b :: blocks), empty, stacked_empty]
    · rw [stacked_cons a [b], stacked_single, if_neg none, if_neg empty, stacked_cons _ blocks,
        stacked_cons a (b :: blocks), stacked_cons b blocks, if_neg (by simp), if_neg none, if_neg empty]
      by_cases last : stacked blocks = []
      · rw [if_pos last, if_pos last, if_neg empty]
      · rw [if_neg last, if_neg last, if_neg (by simp)]
        simp

theorem stacked_first (blocks : List Chars) :
    stacked blocks = [] ∨ ∃ block ∈ blocks, block ≠ [] ∧ ∃ rest, stacked blocks = block ++ rest := by
  induction blocks with
  | nil => exact .inl rfl
  | cons block blocks ih =>
      rw [stacked_cons]
      by_cases empty : block = []
      · rw [if_pos empty]
        rcases ih with none | ⟨first, member, some, rest, whole⟩
        · exact .inl none
        · exact .inr ⟨first, List.mem_cons_of_mem block member, some, rest, whole⟩
      · rw [if_neg empty]
        refine .inr ⟨block, List.mem_cons_self, empty, ?_⟩
        split
        · exact ⟨[], (List.append_nil block).symm⟩
        · exact ⟨_, rfl⟩

theorem stacked_last (blocks : List Chars) :
    stacked blocks = [] ∨ ∃ block ∈ blocks, block ≠ [] ∧ ∃ before, stacked blocks = before ++ block := by
  induction blocks with
  | nil => exact .inl rfl
  | cons block blocks ih =>
      rw [stacked_cons]
      by_cases empty : block = []
      · rw [if_pos empty]
        rcases ih with none | ⟨last, member, some, before, whole⟩
        · exact .inl none
        · exact .inr ⟨last, List.mem_cons_of_mem block member, some, before, whole⟩
      · rw [if_neg empty]
        rcases ih with none | ⟨last, member, some, before, whole⟩
        · rw [if_pos none]
          exact .inr ⟨block, List.mem_cons_self, empty, [], rfl⟩
        · refine .inr ⟨last, List.mem_cons_of_mem block member, some, block ++ '\n' :: '\n' :: before, ?_⟩
          rw [if_neg (by simp [whole, some]), whole]
          simp

theorem newline_run (s : Chars) (all : ∀ c ∈ s, Text.isNewline c) : s = List.replicate s.length '\n' :=
  List.eq_replicate_of_mem fun c member => by simpa [Text.isNewline] using all c member

theorem newlines_last (s : Chars) : ∃ i, s = Text.trimEnd Text.isNewline s ++ List.replicate i '\n' := by
  obtain ⟨run, whole, newlines⟩ := Text.trim_end_run Text.isNewline s
  rw [newline_run run newlines] at whole
  exact ⟨_, whole⟩

theorem newlines_first (s : Chars) : ∃ i, s = List.replicate i '\n' ++ Text.trimStart Text.isNewline s := by
  obtain ⟨run, whole, newlines⟩ := Text.trim_start_run Text.isNewline s
  rw [newline_run run newlines] at whole
  exact ⟨_, whole⟩

-- Newlines are all that joining takes away or adds, and where none meet it is appending.
theorem join_runs (a b : Chars) : ∃ i j k, a = Text.trimEnd Text.isNewline a ++ List.replicate i '\n' ∧
    b = List.replicate j '\n' ++ Text.trimStart Text.isNewline b ∧
    join a b = Text.trimEnd Text.isNewline a ++ (List.replicate k '\n' ++ Text.trimStart Text.isNewline b) ∧
    k ≤ 2 ∧ (k = 0 ↔ i + j = 0) := by
  obtain ⟨i, left⟩ := newlines_last a
  obtain ⟨j, right⟩ := newlines_first b
  have before := congrArg List.length left
  have after := congrArg List.length right
  rw [List.length_append, List.length_replicate] at before after
  exact ⟨i, j, _, left, right, List.append_assoc _ _ _, Nat.min_le_left _ _, by omega⟩

theorem join_apart (x u : Chars) : join x ('\n' :: '\n' :: u) =
    Text.trimEnd Text.isNewline x ++ '\n' :: '\n' :: Text.trimStart Text.isNewline u := by
  have right : Text.trimStart Text.isNewline ('\n' :: '\n' :: u) = Text.trimStart Text.isNewline u := rfl
  have shorter : (Text.trimStart Text.isNewline u).length ≤ u.length := List.length_dropWhile_le _ u
  have newlines : min 2 (max (x.length - (Text.trimEnd Text.isNewline x).length)
      (('\n' :: '\n' :: u).length - (Text.trimStart Text.isNewline u).length)) = 2 := by
    simp only [List.length_cons]
    omega
  simp only [join, right, newlines]
  simp [List.replicate]

theorem core_seam (a b : Chars) (ended : a.getLast?.any Text.isNewline = false)
    (stop : b.head?.any Text.isNewline = false) :
    core (a ++ '\n' :: '\n' :: b) =
      stacked [Text.trimStart Text.isNewline a, Text.trimEnd Text.isNewline b] := by
  rw [stacked_cons, stacked_single]
  by_cases first : a = []
  · have alone : core ([] ++ '\n' :: '\n' :: b) = Text.trimEnd Text.isNewline b := by
      change Text.trimEnd Text.isNewline (Text.trimStart Text.isNewline b) = _
      rw [Text.trimStart, Text.drop_none _ b stop]
    rw [first, alone, if_pos (by rfl)]
  · have left : Text.trimStart Text.isNewline a ≠ [] := by
      intro gone
      have all := List.dropWhile_eq_nil_iff.mp gone
      have last := List.getLast?_eq_some_getLast first
      rw [last, Option.any_some, all _ (List.getLast_mem first)] at ended
      cases ended
    have begins (rest : Chars) : Text.trimStart Text.isNewline (a ++ rest) =
        Text.trimStart Text.isNewline a ++ rest := by
      rw [Text.trim_start_append, if_neg (by simpa using left)]
    rw [if_neg left, core, Text.trim, begins]
    by_cases last : b = []
    · have run : Text.trimEnd Text.isNewline ['\n', '\n'] = [] := rfl
      have kept : Text.trimEnd Text.isNewline (Text.trimStart Text.isNewline a) =
          Text.trimStart Text.isNewline a := by
        rw [← Text.trim, ← Text.trim_both, Text.trim_end_none _ a ended]
      rw [last, Text.trim_end_append, run, if_pos List.isEmpty_nil, kept, if_pos (by rfl)]
    · have right : Text.trimEnd Text.isNewline b ≠ [] := by
        intro gone
        obtain ⟨c, rest, rfl⟩ := List.exists_cons_of_ne_nil last
        have newline := Text.trim_end_empty _ _ gone c List.mem_cons_self
        rw [List.head?_cons, Option.any_some, newline] at stop
        cases stop
      have whole : Text.trimEnd Text.isNewline ('\n' :: '\n' :: b) =
          '\n' :: '\n' :: Text.trimEnd Text.isNewline b := by
        have parts := Text.trim_end_append Text.isNewline ['\n', '\n'] b
        rwa [if_neg (by simpa using right)] at parts
      rw [Text.trim_end_append, whole, if_neg (by simp), if_neg right]

theorem core_join (x y : Chars) (apart : StartsApart y) : core (join x y) = stacked [core x, core y] := by
  obtain ⟨u, rfl⟩ := apart
  have stop : (Text.trimStart Text.isNewline u).head?.any Text.isNewline = false := Text.drop_stop _ u
  rw [join_apart, core_seam _ _ (Text.trim_end_stop Text.isNewline x) stop, Text.trim_both]
  rfl

theorem core_join_all (x : Chars) (blocks : List Chars) (apart : ∀ block ∈ blocks, StartsApart block) :
    core (blocks.foldl join x) = stacked (core x :: blocks.map core) := by
  induction blocks generalizing x with
  | nil => exact (stacked_single (core x)).symm
  | cons block blocks ih =>
      rw [List.forall_mem_cons] at apart
      rw [List.foldl_cons, ih _ apart.2, core_join x block apart.1, stacked_pair, List.map_cons]

-- Only spaces may stand before the text of a line that is the first of a block, and no white space after
-- the last one.
structure Bare (s : Chars) : Prop where
  first : ∀ c ∈ s.head?, c ≠ '\t' ∧ c ≠ '\r'
  last : s.getLast?.any Text.isBlank = false

theorem finish_core (s : Chars) (bare : Bare (core s)) :
    Text.trimEnd Text.isBlank (Text.trimStart Render.isLineStart s) = core s := by
  obtain ⟨run, whole, newlines⟩ := Text.trim_start_run Text.isNewline s
  have stop := Text.drop_stop Text.isNewline s
  obtain ⟨first, last⟩ := bare
  rw [core, Text.trim] at first last ⊢
  rw [← Text.trimStart] at stop
  generalize Text.trimStart Text.isNewline s = r at whole stop first last ⊢
  obtain ⟨tail, parts, ends⟩ := Text.trim_end_run Text.isNewline r
  have lineStart : ∀ c ∈ run, Render.isLineStart c := by
    intro c member
    obtain rfl : c = '\n' := by simpa [Text.isNewline] using newlines c member
    rfl
  have begins : Text.trimStart Render.isLineStart s = r := by
    rw [whole, Text.trim_start_append, Text.trim_start_all _ run lineStart, if_pos List.isEmpty_nil]
    refine Text.drop_none _ r ?_
    cases r with
    | nil => rfl
    | cons c rest =>
        have other : Text.isNewline c = false := by simpa using stop
        have some : Text.trimEnd Text.isNewline (c :: rest) ≠ [] := by
          intro gone
          rw [Text.trim_end_empty _ _ gone c List.mem_cons_self] at other
          cases other
        obtain ⟨d, more, kept⟩ := List.exists_cons_of_ne_nil some
        rw [kept] at parts first
        obtain rfl : c = d := (List.cons.inj parts).1
        obtain ⟨tab, carriage⟩ := first c rfl
        have newline : c ≠ '\n' := by simpa [Text.isNewline] using other
        simp [Render.isLineStart, tab, carriage, newline]
  have blank : ∀ c ∈ tail, Text.isBlank c := by
    intro c member
    obtain rfl : c = '\n' := by simpa [Text.isNewline] using ends c member
    rfl
  rw [begins]
  generalize Text.trimEnd Text.isNewline r = kept at parts first last
  rw [parts, Text.trim_end_append, Text.trim_end_all _ tail blank, if_pos List.isEmpty_nil,
    Text.trim_end_none _ kept last]

end Downmark
