import Downmark.Escape
import Downmark.Text.Blank
/-!
Lines of a text: a text is a single line, or a line, a newline and the rest. What is done line by
line is done to the first line and to the rest. Where two texts meet, a line of each makes one line of both. White
space is told apart from other characters by its code points.
-/

set_option autoImplicit false

namespace Downmark.Text

theorem lines_free (line : Chars) (free : '\n' ∉ line) : lines line = [line] := by
  induction line with
  | nil => rfl
  | cons c s ih =>
      have parts : c ≠ '\n' ∧ '\n' ∉ s := by simpa [eq_comm] using free
      rw [lines_cons, ih parts.2, if_neg (by simpa using parts.1)]
      rfl

theorem lines_newline (line rest : Chars) (free : '\n' ∉ line) :
    lines (line ++ '\n' :: rest) = line :: lines rest := by
  induction line with
  | nil => rw [List.nil_append, lines_cons, if_pos (by rfl)]
  | cons c s ih =>
      have parts : c ≠ '\n' ∧ '\n' ∉ s := by simpa [eq_comm] using free
      rw [List.cons_append, lines_cons, ih parts.2, if_neg (by simpa using parts.1)]
      rfl

theorem unlines_cons (line : Chars) (ls : List Chars) (some : ls ≠ []) :
    unlines (line :: ls) = line ++ '\n' :: unlines ls := by
  cases ls with
  | nil => exact absurd rfl some
  | cons l r => simp [unlines, List.intercalate, List.intersperse]

theorem unlines_append (a b : List Chars) (first : a ≠ []) (next : b ≠ []) :
    unlines (a ++ b) = unlines a ++ '\n' :: unlines b := by
  induction a with
  | nil => exact absurd rfl first
  | cons line rest ih =>
      by_cases last : rest = []
      · subst last
        rw [List.singleton_append, unlines_cons line b next]
        simp [unlines, List.intercalate]
      · rw [List.cons_append, unlines_cons line _ (by simp [last]), unlines_cons line rest last, ih last,
          List.append_assoc, List.cons_append]

theorem lines_unlines (ls : List Chars) (some : ls ≠ []) (free : ∀ line ∈ ls, '\n' ∉ line) :
    lines (unlines ls) = ls := by
  induction ls with
  | nil => exact absurd rfl some
  | cons line rest ih =>
      rw [List.forall_mem_cons] at free
      by_cases last : rest = []
      · subst last
        simpa [unlines, List.intercalate] using lines_free line free.1
      · rw [unlines_cons line rest last, lines_newline line _ free.1, ih last free.2]

theorem unlines_first (line : Chars) (rest : List Chars) : ∃ more, unlines (line :: rest) = line ++ more := by
  by_cases last : rest = []
  · exact ⟨[], by simp [last, unlines, List.intercalate]⟩
  · exact ⟨_, unlines_cons line rest last⟩

theorem unlines_last (ls : List Chars) (line : Chars) : ∃ before, unlines (ls ++ [line]) = before ++ line := by
  have single : unlines [line] = line := by simp [unlines, List.intercalate]
  by_cases only : ls = []
  · exact ⟨[], by rw [only, List.nil_append, single, List.nil_append]⟩
  · refine ⟨unlines ls ++ ['\n'], ?_⟩
    rw [unlines_append ls _ only (by simp), single, List.append_assoc]
    rfl

-- Induction on the lines of a text, from the last one back.
theorem line_induction {P : Chars → Prop} (last : ∀ line, '\n' ∉ line → P line)
    (more : ∀ line rest, '\n' ∉ line → P rest → P (line ++ '\n' :: rest)) (s : Chars) : P s := by
  by_cases broken : '\n' ∈ s
  · obtain ⟨line, rest, same, free⟩ := List.eq_append_cons_of_mem broken
    have smaller : rest.length < s.length := by
      rw [same, List.length_append, List.length_cons]
      omega
    rw [same]
    exact more line rest free (line_induction last more rest)
  · exact last s broken
termination_by s.length

theorem take_run (p : Char → Bool) (run rest : Chars) (all : ∀ c ∈ run, p c)
    (stop : rest.head?.any p = false) : (run ++ rest).takeWhile p = run := by
  rw [List.takeWhile_append_of_pos all]
  cases rest with
  | nil => simp
  | cons c rest => rw [List.takeWhile_cons_of_neg (by simpa using stop), List.append_nil]

theorem drop_stop (p : Char → Bool) (s : Chars) : (s.dropWhile p).head?.any p = false := by
  have stop := List.head?_dropWhile_not p s
  cases rest : (s.dropWhile p).head? with
  | none => rfl
  | some c => simpa [rest] using stop

theorem drop_none (p : Char → Bool) (s : Chars) (stop : s.head?.any p = false) : s.dropWhile p = s := by
  cases s with
  | nil => rfl
  | cons c s => exact List.dropWhile_cons_of_neg (by simpa using stop)

theorem take_empty (p : Char → Bool) (s : Chars) : s.takeWhile p = [] ↔ s.head?.any p = false := by
  cases s with
  | nil => simp
  | cons c s => by_cases inside : p c <;> simp [inside]

theorem ending_empty (p : Char → Bool) (s : Chars) : ending p s = [] ↔ s.getLast?.any p = false := by
  rw [ending, List.reverse_eq_nil_iff, take_empty, List.head?_reverse]

theorem ending_all (p : Char → Bool) (s : Chars) : ∀ c ∈ ending p s, p c :=
  fun c member => List.all_eq_true.mp List.all_takeWhile c (List.mem_reverse.mp member)

theorem trim_end_ending (p : Char → Bool) (s : Chars) : trimEnd p s ++ ending p s = s := by
  rw [trimEnd, ending, ← List.reverse_append, List.takeWhile_append_dropWhile, List.reverse_reverse]

theorem trim_end_shorter (p : Char → Bool) (s : Chars) : (trimEnd p s).length ≤ s.length := by
  have whole := congrArg List.length (trim_end_ending p s)
  rw [List.length_append] at whole
  omega

-- Where a run of a class ends is no matter of choice.
theorem run_unique (p : Char → Bool) (a b r t : Chars) (all : ∀ c ∈ a, p c) (others : ∀ c ∈ b, p c)
    (stop : r.head?.any p = false) (halt : t.head?.any p = false) (same : a ++ r = b ++ t) :
    a = b ∧ r = t := by
  have runs : a = b := by
    rw [← take_run p a r all stop, same, take_run p b t others halt]
  subst runs
  exact ⟨rfl, List.append_cancel_left same⟩

def firstLine (s : Chars) : Chars := s.takeWhile (· != '\n')

theorem first_line_free (line : Chars) (free : '\n' ∉ line) : firstLine line = line := by
  have kept : ∀ c ∈ line, (c != '\n') = true := by
    intro c member
    simpa using fun same : c = '\n' => free (same ▸ member)
  have whole := take_run (· != '\n') line [] kept rfl
  rwa [List.append_nil] at whole

theorem first_line_append (line rest : Chars) (free : '\n' ∉ line) :
    firstLine (line ++ rest) = line ++ firstLine rest := by
  rw [firstLine, List.takeWhile_append_of_pos]
  · rfl
  · intro c member
    simpa using fun same : c = '\n' => free (same ▸ member)

theorem first_line_mem (s : Chars) : firstLine s ∈ lines s := by
  induction s using line_induction with
  | last line free => simp [first_line_free line free, lines_free line free]
  | more line rest free _ =>
      rw [first_line_append line _ free, lines_newline line rest free]
      simp [firstLine]

def lastLine (s : Chars) : Chars := ending (· != '\n') s

theorem last_line_append (a b : Chars) :
    lastLine (a ++ b) = if '\n' ∈ b then lastLine b else lastLine a ++ b := by
  have whole : ∀ c ∈ b, '\n' ∉ b → (c != '\n') = true := by
    intro c member free
    simpa using fun same : c = '\n' => free (same ▸ member)
  unfold lastLine ending
  rw [List.reverse_append]
  split
  · rename_i broken
    obtain ⟨line, rest, same, free⟩ := List.eq_append_cons_of_mem (List.mem_reverse.mpr broken)
    have run : ∀ c ∈ line, (c != '\n') = true := by
      intro c member
      simpa using fun same : c = '\n' => free (same ▸ member)
    rw [same, List.append_assoc, List.cons_append, take_run _ line _ run (by simp), take_run _ line _ run (by simp)]
  · rename_i free
    rw [List.takeWhile_append_of_pos fun c member => whole c (List.mem_reverse.mp member) free, List.reverse_append,
      List.reverse_reverse]

theorem last_line_free (line : Chars) (free : '\n' ∉ line) : lastLine line = line := by
  have alone := last_line_append [] line
  rwa [if_neg free, List.nil_append] at alone

-- The last line of one text and the first line of the next become one line.
theorem lines_append (a b : Chars) :
    lines (a ++ b) = (lines a).dropLast ++ (lastLine a ++ firstLine b) :: (lines b).tail := by
  induction a using line_induction with
  | last line free =>
      rw [lines_free line free, last_line_free line free]
      induction b using line_induction with
      | last next others =>
          have both : '\n' ∉ line ++ next := by simp [free, others]
          rw [lines_free _ both, lines_free next others, first_line_free next others]
          rfl
      | more next rest others _ =>
          have both : '\n' ∉ line ++ next := by simp [free, others]
          rw [← List.append_assoc, lines_newline _ rest both, lines_newline next rest others,
            first_line_append next _ others]
          simp [firstLine]
  | more line rest free ih =>
      have ends : lastLine (line ++ '\n' :: rest) = lastLine rest := by
        rw [last_line_append, if_pos List.mem_cons_self]
        have alone := last_line_append ['\n'] rest
        rw [List.singleton_append] at alone
        rw [alone]
        split
        · rfl
        · rename_i single
          rw [last_line_free rest single]
          rfl
      rw [List.append_assoc, List.cons_append, lines_newline line _ free, ih, lines_newline line rest free, ends]
      cases shape : lines rest with
      | nil => exact absurd shape (lines_ne_nil rest)
      | cons first more => rfl

theorem lines_break (a b : Chars) : lines (a ++ '\n' :: b) = lines a ++ lines b := by
  have whole := lines_append a []
  rw [List.append_nil] at whole
  rw [lines_append, whole, lines_cons, if_pos (by rfl)]
  simp [firstLine, lines_nil]

theorem lines_before (a b line : Chars) (member : line ∈ lines a) :
    ∃ more, line ++ more ∈ lines (a ++ b) ∧ ∀ c ∈ more, c ∈ b := by
  have whole := lines_append a []
  rw [List.append_nil, lines_nil, firstLine, List.takeWhile_nil, List.append_nil] at whole
  rw [whole, List.mem_append] at member
  rw [lines_append]
  rcases member with front | last
  · exact ⟨[], by simp [front], by simp⟩
  · obtain rfl : line = lastLine a := by simpa using last
    exact ⟨firstLine b, by simp, fun c inside => (List.takeWhile_sublist _).mem inside⟩

theorem lines_behind (a b line : Chars) (member : line ∈ lines b) :
    ∃ more, more ++ line ∈ lines (a ++ b) ∧ ∀ c ∈ more, c ∈ a := by
  have whole := lines_append [] b
  rw [List.nil_append, show lastLine [] = [] from rfl, List.nil_append, lines_nil] at whole
  rw [whole, List.mem_append, List.mem_cons] at member
  rw [lines_append]
  rcases member with none | rfl | later
  · cases none
  · refine ⟨lastLine a, by simp, fun c inside => ?_⟩
    rw [← trim_end_ending (· != '\n') a]
    exact List.mem_append_right _ inside
  · exact ⟨[], by simp [later], by simp⟩

/-- The code points of white space. -/
def blankPoints : List Nat :=
  [9, 10, 11, 12, 13, 28, 29, 30, 31, 32, 0x85, 0xa0, 0x1680, 0x2000, 0x2001, 0x2002, 0x2003, 0x2004, 0x2005, 0x2006,
   0x2007, 0x2008, 0x2009, 0x200a, 0x2028, 0x2029, 0x202f, 0x205f, 0x3000]

theorem blank_point (c : Char) (blank : isBlank c = true) : c.toNat ∈ blankPoints := by
  simp only [isBlank, Bool.or_eq_true, Bool.and_eq_true, decide_eq_true_eq, beq_iff_eq] at blank
  simp only [blankPoints, List.mem_cons, List.not_mem_nil, or_false]
  omega

theorem solid_class (p : Char → Bool) (other : ∀ n ∈ blankPoints, p (Char.ofNat n) = false) (c : Char)
    (belongs : p c = true) : isBlank c = false := by
  rw [Bool.eq_false_iff]
  intro blank
  have same := other c.toNat (blank_point c blank)
  rw [Char.ofNat_toNat, belongs] at same
  cases same

end Downmark.Text

namespace Downmark.Escape

theorem on_lines_free (f : Chars → Chars) (line : Chars) (free : '\n' ∉ line) :
    onLines f line = f line := by
  rw [onLines, Text.lines_free line free]
  simp [Text.unlines, List.intercalate]

theorem on_lines_newline (f : Chars → Chars) (line rest : Chars) (free : '\n' ∉ line) :
    onLines f (line ++ '\n' :: rest) = f line ++ '\n' :: onLines f rest := by
  rw [onLines, Text.lines_newline line rest free, List.map_cons, Text.unlines_cons]
  · rfl
  · simpa using Text.lines_ne_nil rest

theorem lines_on_lines (f : Chars → Chars) (keeps : ∀ line, '\n' ∉ line → '\n' ∉ f line) (s : Chars) :
    Text.lines (onLines f s) = (Text.lines s).map f := by
  induction s using Text.line_induction with
  | last line free =>
      rw [on_lines_free f line free, Text.lines_free line free, Text.lines_free _ (keeps line free)]
      rfl
  | more line rest free ih =>
      rw [on_lines_newline f line rest free, Text.lines_newline line rest free,
        Text.lines_newline _ _ (keeps line free), ih]
      rfl

end Downmark.Escape
