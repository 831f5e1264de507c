import Downmark.CommonMark.Inline
import Downmark.Proofs.ContainerLines
/-!
Texts with never more than one blank line in a row. Output that has more of them at its two ends than that is
still airy: what is left between its runs of newlines is sparse. Main statements: joining keeps output airy,
and so does what quotes, items and headings make of it.
-/

set_option autoImplicit false

namespace Downmark

def Sparse (s : Chars) : Prop := ¬ ['\n', '\n', '\n'] <:+: s

theorem sparse_part (u s : Chars) (part : u <:+: s) (sparse : Sparse s) : Sparse u :=
  fun run => sparse (run.trans part)

theorem sparse_short (s : Chars) (short : s.length ≤ 2) : Sparse s := by
  intro run
  have longer : 3 ≤ s.length := run.length_le
  omega

-- A run of newlines does not reach over any other character.
theorem sparse_around (a b : Chars) (c : Char) (other : c ≠ '\n') (first : Sparse a) (next : Sparse b) :
    Sparse (a ++ c :: b) := by
  rintro ⟨p, q, whole⟩
  rcases List.append_eq_append_iff.mp whole with ⟨more, same, -⟩ | ⟨rest, same, later⟩
  · exact first ⟨p, more, same.symm⟩
  · cases rest with
    | nil => exact first ⟨p, [], by simpa using same⟩
    | cons d rest =>
        obtain ⟨rfl, rfl⟩ := List.cons.inj later
        rcases List.append_eq_append_iff.mp same with ⟨middle, -, run⟩ | ⟨front, -, run⟩
        · have inside : c ∈ ['\n', '\n', '\n'] := run ▸ List.mem_append_right _ List.mem_cons_self
          exact other (by simpa using inside)
        · cases front with
          | nil => exact other (List.cons.inj run).1
          | cons e front =>
              obtain ⟨-, rfl⟩ := List.cons.inj run
              exact next ⟨front, q, rfl⟩

theorem sparse_free_append (a b : Chars) (free : '\n' ∉ a) (next : Sparse b) : Sparse (a ++ b) := by
  induction a with
  | nil => exact next
  | cons c a ih =>
      have parts : c ≠ '\n' ∧ '\n' ∉ a := by simpa [eq_comm] using free
      exact sparse_around [] (a ++ b) c parts.1 (sparse_short [] (by simp)) (ih parts.2)

theorem sparse_free (s : Chars) (free : '\n' ∉ s) : Sparse s := by
  have whole := sparse_free_append s [] free (sparse_short [] (by simp))
  rwa [List.append_nil] at whole

theorem sparse_append_free (a b : Chars) (free : '\n' ∉ b) (first : Sparse a) : Sparse (a ++ b) := by
  cases b with
  | nil => rwa [List.append_nil]
  | cons c b =>
      have parts : c ≠ '\n' ∧ '\n' ∉ b := by simpa [eq_comm] using free
      exact sparse_around a b c parts.1 first (sparse_free b parts.2)

theorem sparse_seam (a b : Chars) (k : Nat) (short : k ≤ 2) (ended : a.getLast?.any Text.isNewline = false)
    (stop : b.head?.any Text.isNewline = false) (first : Sparse a) (next : Sparse b) :
    Sparse (a ++ (List.replicate k '\n' ++ b)) := by
  have run : Sparse (List.replicate k '\n') := sparse_short _ (by simpa using short)
  have right : Sparse (List.replicate k '\n' ++ b) := by
    cases b with
    | nil => rwa [List.append_nil]
    | cons c b =>
        have other : c ≠ '\n' := by simpa [Text.isNewline] using stop
        exact sparse_around _ b c other run (sparse_part b (c :: b) (List.infix_cons List.infix_rfl) next)
  cases last : a.getLast? with
  | none =>
      rw [List.getLast?_eq_none_iff.mp last]
      exact right
  | some d =>
      obtain ⟨front, rfl⟩ := List.getLast?_eq_some_iff.mp last
      have other : d ≠ '\n' := by simpa [Text.isNewline] using ended
      rw [List.append_assoc]
      exact sparse_around front _ d other (sparse_part front _ (List.prefix_append _ _).isInfix first) right

theorem start_kept (t s : Chars) (stop : t.head?.any Text.isNewline = false) (part : t <:+: s) :
    t <:+: Text.trimStart Text.isNewline s := by
  induction s with
  | nil => exact part
  | cons c s ih =>
      by_cases newline : Text.isNewline c
      · rw [Text.trimStart, List.dropWhile_cons_of_pos newline]
        rcases List.infix_cons_iff.mp part with front | later
        · cases t with
          | nil => exact List.nil_infix
          | cons d t =>
              obtain rfl : d = c := (List.cons_prefix_cons.mp front).1
              rw [List.head?_cons, Option.any_some, newline] at stop
              cases stop
        · exact ih later
      · rw [Text.trimStart, List.dropWhile_cons_of_neg newline]
        exact part

theorem end_kept (t s : Chars) (stop : t.getLast?.any Text.isNewline = false) (part : t <:+: s) :
    t <:+: Text.trimEnd Text.isNewline s := by
  have turned := start_kept t.reverse s.reverse (by rwa [List.head?_reverse]) (List.reverse_infix.mpr part)
  rw [← List.reverse_infix, Text.trimEnd, List.reverse_reverse]
  exact turned

theorem core_part (s : Chars) : core s <:+: s := by
  have front : core s <:+: Text.trimStart Text.isNewline s := by
    obtain ⟨run, whole, -⟩ := Text.trim_end_run Text.isNewline (Text.trimStart Text.isNewline s)
    exact ⟨[], run, by simpa [core, Text.trim] using whole.symm⟩
  exact front.trans (List.dropWhile_suffix _).isInfix

-- What neither begins nor ends with a newline lies between the runs of newlines at the two ends.
theorem core_holds (t s : Chars) (stop : t.head?.any Text.isNewline = false)
    (ended : t.getLast?.any Text.isNewline = false) (part : t <:+: s) : t <:+: core s :=
  end_kept t _ ended (start_kept t s stop part)

theorem core_within (u s : Chars) (part : u <:+: s) : core u <:+: core s :=
  core_holds _ s (core_stops u).1 (core_stops u).2 ((core_part u).trans part)

-- Sparse output, or sparse but for its two ends.
def Airy (flat : Bool) (s : Chars) : Prop := Sparse (if flat then s else core s)

theorem airy_sparse (flat : Bool) (s : Chars) (sparse : Sparse s) : Airy flat s := by
  cases flat with
  | true => exact sparse
  | false => exact sparse_part _ s (core_part s) sparse

theorem airy_nil (flat : Bool) : Airy flat [] := airy_sparse flat [] (sparse_short [] (by simp))

theorem airy_core (flat : Bool) (s : Chars) (airy : Airy flat s) : Sparse (core s) := by
  cases flat with
  | true => exact sparse_part _ s (core_part s) airy
  | false => exact airy

theorem airy_part (flat : Bool) (u s : Chars) (part : u <:+: s) (airy : Airy flat s) : Airy flat u := by
  cases flat with
  | true => exact sparse_part u s part airy
  | false => exact sparse_part _ _ (core_within u s part) airy

theorem airy_join (flat : Bool) (a b : Chars) (first : Airy flat a) (next : Airy flat b) : Airy flat (join a b) := by
  obtain ⟨-, -, k, -, -, shape, short, -⟩ := join_runs a b
  rw [shape]
  cases flat with
  | true =>
      obtain ⟨run, whole, -⟩ := Text.trim_end_run Text.isNewline a
      have left : Text.trimEnd Text.isNewline a <:+: a := ⟨[], run, by simpa using whole.symm⟩
      exact sparse_seam _ _ k short (Text.trim_end_stop _ a) (Text.drop_stop _ b) (sparse_part _ a left first)
        (sparse_part _ b (List.dropWhile_suffix _).isInfix next)
  | false =>
      obtain ⟨run, left, newlines⟩ := Text.trim_start_run Text.isNewline (Text.trimEnd Text.isNewline a)
      obtain ⟨tail, right, others⟩ := Text.trim_end_run Text.isNewline (Text.trimStart Text.isNewline b)
      rw [Text.trim_both] at left
      have middle := sparse_seam (core a) (core b) k short (core_stops a).2 (core_stops b).1 first next
      have parts : Text.trimEnd Text.isNewline a ++ (List.replicate k '\n' ++ Text.trimStart Text.isNewline b) =
          run ++ (core a ++ (List.replicate k '\n' ++ core b) ++ tail) := by
        rw [left, right]
        simp only [core, Text.trim, List.append_assoc]
      change Sparse (core _)
      rw [parts, core_front _ run newlines, core_tail _ tail others]
      exact sparse_part _ _ (core_part _) middle

theorem quote_line_free (line : Chars) (free : '\n' ∉ line) : '\n' ∉ Block.quoteLine line := by
  unfold Block.quoteLine
  split
  · decide
  · simpa using free

-- Every line of a quote begins with its mark, so no line is empty.
theorem quote_sparse (content : Chars) : Sparse (Block.quoteText content) := by
  rw [quote_text_eq, quoted_lines]
  induction core content using Text.line_induction with
  | last line free =>
      rw [Escape.on_lines_free _ line free]
      exact sparse_free _ (quote_line_free line free)
  | more line rest free ih =>
      obtain ⟨more, first⟩ := quoted_first rest
      rw [quoted_lines] at first
      rw [Escape.on_lines_newline _ line rest free]
      rw [first] at ih ⊢
      refine sparse_free_append _ _ (quote_line_free line free) ?_
      exact sparse_seam [] _ 1 (by decide) rfl rfl (sparse_short [] (by simp)) ih

theorem indent_line_free (indent line : Chars) (free : '\n' ∉ line) (spaces : '\n' ∉ indent) :
    '\n' ∉ indentLine indent line := by
  unfold indentLine
  split
  · exact free
  · simp [spaces, free]

-- The newlines before the text are part of the statement, since an empty line lengthens their run.
theorem indented_sparse (indent s : Chars) (spaces : '\n' ∉ indent) (k : Nat)
    (sparse : Sparse (List.replicate k '\n' ++ s)) :
    Sparse (List.replicate k '\n' ++ Escape.onLines (indentLine indent) s) := by
  induction s using Text.line_induction generalizing k with
  | last line free =>
      rw [Escape.on_lines_free _ line free]
      exact sparse_append_free _ _ (indent_line_free indent line free spaces)
        (sparse_part _ _ (List.prefix_append _ _).isInfix sparse)
  | more line rest free ih =>
      rw [Escape.on_lines_newline _ line rest free]
      cases line with
      | nil =>
          have longer (t : Chars) : List.replicate k '\n' ++ '\n' :: t = List.replicate (k + 1) '\n' ++ t := by
            rw [List.replicate_succ', List.append_assoc]
            rfl
          rw [List.nil_append, longer] at sparse
          change Sparse (List.replicate k '\n' ++ '\n' :: _)
          rw [longer]
          exact ih (k + 1) sparse
      | cons c line =>
          have parts : c ≠ '\n' ∧ '\n' ∉ line := by simpa [eq_comm] using free
          have before : Sparse (List.replicate k '\n') := sparse_part _ _ (List.prefix_append _ _).isInfix sparse
          have after : Sparse ('\n' :: rest) :=
            sparse_part _ _ ⟨List.replicate k '\n' ++ c :: line, [], by simp⟩ sparse
          have shape : List.replicate k '\n' ++ (indentLine indent (c :: line) ++
              '\n' :: Escape.onLines (indentLine indent) rest) = List.replicate k '\n' ++ indent ++
                c :: (line ++ '\n' :: Escape.onLines (indentLine indent) rest) := by simp [indentLine]
          rw [shape]
          exact sparse_around _ _ c parts.1 (sparse_append_free _ indent spaces before)
            (sparse_free_append line _ parts.2 (ih 1 after))

-- The first line is not indented, and a text that is sparse has no more than one newline before it.
theorem indent_lines_sparse (indent s : Chars) (spaces : '\n' ∉ indent) (sparse : Sparse s) :
    Sparse (Block.indentLines s indent) := by
  induction s using Text.line_induction with
  | last line free =>
      rw [indent_lines_free indent line free]
      exact sparse
  | more line rest free _ =>
      rw [indent_lines_newline indent line rest free]
      refine sparse_free_append line _ free (indented_sparse indent rest spaces 1 ?_)
      exact sparse_part _ _ (List.suffix_append _ _).isInfix sparse

theorem final_newline_sparse (s : Chars) (ended : s.getLast?.any Text.isNewline = false) (sparse : Sparse s) :
    Sparse (s ++ ['\n']) :=
  sparse_seam s [] 1 (by decide) ended rfl sparse (sparse_short [] (by simp))

theorem item_sparse (marker content : Chars) (free : '\n' ∉ marker) (sparse : Sparse (core content)) :
    Sparse (Block.itemText marker content) := by
  have whole : Sparse (Block.oneFinalNewline content) := by
    rcases one_final_newline_cases content with same | newline
    · rwa [same]
    · rw [newline]
      exact final_newline_sparse _ (core_stops content).2 sparse
  exact sparse_free_append marker _ free (indent_lines_sparse _ _ (by simp [Text.spaces]) whole)

theorem delimited_sparse (text content preferred alternate : Chars) (lines : '\n' ∉ preferred ∧ '\n' ∉ alternate)
    (sparse : Sparse content) : Sparse (Inline.delimited text content preferred alternate) := by
  have free : '\n' ∉ Inline.chooseDelimiter text content preferred alternate := by
    unfold Inline.chooseDelimiter
    split_ifs
    · exact lines.1
    · exact lines.2
    · exact lines.1
  unfold Inline.delimited
  split
  · exact sparse_short [] (by simp)
  · exact sparse_append_free _ _ free (sparse_free_append _ _ free sparse)

theorem heading_sparse (style : HeadingStyle) (level : Nat) (content : Chars) :
    Sparse (Block.headingText style level content) := by
  have free : '\n' ∉ Text.oneSpaced content := fun member => by
    rcases Text.one_spaced_mem content _ member with space | solid
    · cases space
    · cases solid
  unfold Block.headingText
  dsimp only
  split
  · refine sparse_free_append _ _ free ?_
    refine sparse_append_free ['\n'] _ (fun member => ?_) (sparse_short _ (by simp))
    have same := (List.mem_replicate.mp member).2
    split at same
    · cases same
    · cases same
  · refine sparse_free _ fun member => ?_
    rcases List.mem_append.mp member with sign | text
    · cases (List.mem_replicate.mp sign).2
    · rcases List.mem_cons.mp text with space | inside
      · cases space
      · exact free inside

end Downmark
