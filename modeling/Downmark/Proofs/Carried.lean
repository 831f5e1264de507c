import Downmark.CommonMark.Inline
import Downmark.Proofs.ContainerLines
/-!
Pieces of text that are carried along. A piece without white space in it is cut by no rule: lines, words and
trimmed ends only ever part a text at white space. Main statements: whatever is done to the content of an
element, pieces that stand in it one after the other do so afterwards.
-/

set_option autoImplicit false

namespace Downmark

-- Some pieces stand in a text, one after the other.
def Carries : List Chars → Chars → Prop
  | [], _ => True
  | piece :: rest, s => ∃ before after, s = before ++ piece ++ after ∧ Carries rest after

structure Compact (piece : Chars) : Prop where
  some : piece ≠ []
  solid : ∀ c ∈ piece, Text.isBlank c = false

theorem carries_before (pieces : List Chars) (s t : Chars) (carries : Carries pieces t) : Carries pieces (s ++ t) := by
  cases pieces with
  | nil => trivial
  | cons piece rest =>
      obtain ⟨before, after, rfl, later⟩ := carries
      exact ⟨s ++ before, after, by simp, later⟩

theorem carries_after (pieces : List Chars) (s t : Chars) (carries : Carries pieces s) : Carries pieces (s ++ t) := by
  induction pieces generalizing s with
  | nil => trivial
  | cons piece rest ih =>
      obtain ⟨before, after, rfl, later⟩ := carries
      exact ⟨before, after ++ t, by simp, ih after later⟩

theorem carries_append (a b : List Chars) (s t : Chars) (first : Carries a s) (next : Carries b t) :
    Carries (a ++ b) (s ++ t) := by
  induction a generalizing s with
  | nil => exact carries_before b s t next
  | cons piece rest ih =>
      obtain ⟨before, after, rfl, later⟩ := first
      exact ⟨before, after ++ t, by simp, ih after later⟩

theorem carries_piece (piece : Chars) : Carries [piece] piece := ⟨[], [], by simp, trivial⟩

section

variable (pieces : List Chars) (compact : ∀ piece ∈ pieces, Compact piece)

include compact

theorem carries_nil (carries : Carries pieces []) : pieces = [] := by
  cases pieces with
  | nil => rfl
  | cons piece rest =>
      obtain ⟨before, after, shape, -⟩ := carries
      have none : piece = [] := by simpa using (List.append_eq_nil_iff.mp (List.append_eq_nil_iff.mp shape.symm).1).2
      exact absurd none (compact piece List.mem_cons_self).some

-- White space parts the pieces before it from those after it.
theorem carries_split (s t : Chars) (c : Char) (blank : Text.isBlank c = true) (carries : Carries pieces (s ++ c :: t)) :
    ∃ a b, pieces = a ++ b ∧ Carries a s ∧ Carries b t := by
  induction pieces generalizing s with
  | nil => exact ⟨[], [], rfl, trivial, trivial⟩
  | cons piece rest ih =>
      rw [List.forall_mem_cons] at compact
      have whole : c ∉ piece := fun member => by
        rw [compact.1.solid c member] at blank
        cases blank
      obtain ⟨before, after, shape, later⟩ := carries
      rcases List.append_eq_append_iff.mp shape with ⟨extra, here, there⟩ | ⟨extra, here, there⟩
      · cases extra with
        | nil =>
            rw [List.append_nil] at here
            obtain ⟨a, b, rfl, first, next⟩ := ih compact.2 [] (by rw [List.nil_append, there]; exact later)
            have none := carries_nil a (fun p member => compact.2 p (List.mem_append_left b member)) first
            subst none
            exact ⟨[piece], b, rfl, ⟨before, [], by simp [here], trivial⟩, next⟩
        | cons d extra =>
            obtain ⟨rfl, rfl⟩ := List.cons.inj there
            rcases List.append_eq_append_iff.mp here with ⟨front, left, right⟩ | ⟨front, left, right⟩
            · exact absurd (by simp [right]) whole
            · cases front with
              | nil => exact absurd (by rw [← List.nil_append piece, ← right]; exact List.mem_cons_self) whole
              | cons e front =>
                  obtain ⟨rfl, rfl⟩ := List.cons.inj right
                  exact ⟨[], piece :: rest, rfl, trivial, front, after, by simp, later⟩
      · subst there
        obtain ⟨a, b, rfl, first, next⟩ := ih compact.2 extra later
        exact ⟨piece :: a, b, rfl, ⟨before, extra, here, first⟩, next⟩

theorem carries_run (run s : Chars) (blank : ∀ c ∈ run, Text.isBlank c = true) (carries : Carries pieces (run ++ s)) :
    Carries pieces s := by
  induction run with
  | nil => exact carries
  | cons c run ih =>
      rw [List.forall_mem_cons] at blank
      obtain ⟨a, b, rfl, first, next⟩ := carries_split pieces compact [] (run ++ s) c blank.1 carries
      have none := carries_nil a (fun piece member => compact piece (List.mem_append_left b member)) first
      subst none
      exact ih blank.2 next

theorem carries_blank (s : Chars) (blank : ∀ c ∈ s, Text.isBlank c = true) (carries : Carries pieces s) : pieces = [] :=
  carries_nil pieces compact (carries_run pieces compact s [] blank (by rwa [List.append_nil]))

theorem carries_run_end (s run : Chars) (blank : ∀ c ∈ run, Text.isBlank c = true)
    (carries : Carries pieces (s ++ run)) : Carries pieces s := by
  cases run with
  | nil => rwa [List.append_nil] at carries
  | cons c run =>
      rw [List.forall_mem_cons] at blank
      obtain ⟨a, b, rfl, first, next⟩ := carries_split pieces compact s run c blank.1 carries
      have none := carries_blank b (fun piece member => compact piece (List.mem_append_right a member)) run blank.2 next
      rwa [none, List.append_nil]

section

variable (p : Char → Bool) (blank : ∀ c, p c = true → Text.isBlank c = true) (s : Chars) (carries : Carries pieces s)

include blank carries

theorem carries_trim_start : Carries pieces (Text.trimStart p s) := by
  obtain ⟨run, whole, all⟩ := Text.trim_start_run p s
  rw [whole] at carries
  exact carries_run pieces compact run _ (fun c member => blank c (all c member)) carries

theorem carries_trim_end : Carries pieces (Text.trimEnd p s) := by
  obtain ⟨run, whole, all⟩ := Text.trim_end_run p s
  rw [whole] at carries
  exact carries_run_end pieces compact _ run (fun c member => blank c (all c member)) carries

theorem carries_trim : Carries pieces (Text.trim p s) :=
  carries_trim_end pieces compact p blank _ (carries_trim_start pieces compact p blank s carries)

end

end

theorem newline_is_blank (c : Char) (newline : Text.isNewline c = true) : Text.isBlank c = true := by
  obtain rfl : c = '\n' := by simpa [Text.isNewline] using newline
  rfl

theorem gap_is_blank (c : Char) (gap : Text.isGap c = true) : Text.isBlank c = true := by
  simp only [Text.isGap, Bool.or_eq_true, beq_iff_eq] at gap
  rcases gap with rfl | rfl <;> rfl

theorem carries_join (a b : List Chars) (compact : ∀ piece ∈ a ++ b, Compact piece) (x y : Chars)
    (first : Carries a x) (next : Carries b y) : Carries (a ++ b) (join x y) := by
  obtain ⟨k, shape, -⟩ := join_seam x y
  have left := carries_trim_end a (fun piece member => compact piece (List.mem_append_left b member))
    Text.isNewline newline_is_blank x first
  have right := carries_trim_start b (fun piece member => compact piece (List.mem_append_right a member))
    Text.isNewline newline_is_blank y next
  rw [shape]
  exact carries_append a b _ _ left (carries_before b _ _ right)

theorem carries_around (pieces : List Chars) (before s after : Chars) (carries : Carries pieces s) :
    Carries pieces (before ++ s ++ after) := carries_after pieces _ after (carries_before pieces before s carries)

theorem carries_apart (pieces : List Chars) (s : Chars) (carries : Carries pieces s) : Carries pieces (Block.apart s) :=
  carries_around pieces ['\n', '\n'] s ['\n', '\n'] carries

section

variable (pieces : List Chars) (compact : ∀ piece ∈ pieces, Compact piece)

include compact

theorem carries_on_lines (f : Chars → Chars)
    (line : ∀ pieces, (∀ piece ∈ pieces, Compact piece) → ∀ line, Carries pieces line → Carries pieces (f line))
    (s : Chars) (carries : Carries pieces s) : Carries pieces (Escape.onLines f s) := by
  induction s using Text.line_induction generalizing pieces with
  | last s free =>
      rw [Escape.on_lines_free f s free]
      exact line pieces compact s carries
  | more first rest free ih =>
      obtain ⟨a, b, rfl, here, later⟩ := carries_split pieces compact first rest '\n' rfl carries
      rw [List.forall_mem_append] at compact
      rw [Escape.on_lines_newline f first rest free]
      exact carries_append a b _ _ (line a compact.1 first here) (carries_before b ['\n'] _ (ih b compact.2 later))

theorem carries_quote_line (line : Chars) (carries : Carries pieces line) : Carries pieces (Block.quoteLine line) := by
  unfold Block.quoteLine
  split
  · rename_i blank
    rw [carries_blank pieces compact line (List.all_eq_true.mp blank) carries]
    trivial
  · exact carries_before pieces ['>', ' '] line carries

theorem carries_quote (content : Chars) (carries : Carries pieces content) :
    Carries pieces (Block.quoteText content) := by
  rw [quote_text_eq, quoted_lines]
  exact carries_on_lines pieces compact Block.quoteLine carries_quote_line _
    (carries_trim pieces compact Text.isNewline newline_is_blank content carries)

omit compact in
theorem carries_indent_line (indent line : Chars) (carries : Carries pieces line) :
    Carries pieces (indentLine indent line) := by
  unfold indentLine
  split
  · exact carries
  · exact carries_before pieces indent line carries

theorem carries_indented (indent s : Chars) (carries : Carries pieces s) :
    Carries pieces (Block.indentLines s indent) := by
  induction s using Text.line_induction with
  | last line free => rwa [indent_lines_free indent line free]
  | more line rest free _ =>
      obtain ⟨a, b, rfl, here, later⟩ := carries_split pieces compact line rest '\n' rfl carries
      rw [List.forall_mem_append] at compact
      rw [indent_lines_newline indent line rest free]
      refine carries_append a b _ _ here (carries_before b ['\n'] _ ?_)
      exact carries_on_lines b compact.2 _ (fun pieces _ => carries_indent_line pieces indent) rest later

theorem carries_item (marker content : Chars) (carries : Carries pieces content) :
    Carries pieces (Block.itemText marker content) := by
  refine carries_before pieces marker _ (carries_indented pieces compact _ _ ?_)
  have inner := carries_trim pieces compact Text.isNewline newline_is_blank content carries
  rcases one_final_newline_cases content with same | newline
  · exact same ▸ inner
  · exact newline ▸ carries_after pieces _ ['\n'] inner

end

namespace Text

theorem words_nil : words [] = [] := rfl

theorem one_spaced_solid (w : Chars) (solid : ∀ c ∈ w, isBlank c = false) : oneSpaced w = w := by
  cases w with
  | nil => rfl
  | cons c w => rw [oneSpaced, words_solid (c :: w) (List.cons_ne_nil c w) solid, List.intercalate_singleton]

theorem one_spaced_blank (w rest : Chars) (c : Char) (solid : ∀ d ∈ w, isBlank d = false) (blank : isBlank c = true) :
    oneSpaced (w ++ c :: rest) = w ++ (if words rest = [] ∨ w = [] then [] else [' ']) ++ oneSpaced rest := by
  rw [oneSpaced, words_blank c blank]
  cases w with
  | nil => simp [words_nil, oneSpaced]
  | cons d w =>
      rw [words_solid (d :: w) (List.cons_ne_nil d w) solid, oneSpaced]
      cases words rest with
      | nil => simp [List.intercalate]
      | cons next more => simp [List.intercalate_cons_cons]

-- Induction on the words of a text, from the last one back.
theorem word_induction {P : Chars → Prop} (last : ∀ w, (∀ c ∈ w, isBlank c = false) → P w)
    (more : ∀ w c rest, (∀ d ∈ w, isBlank d = false) → isBlank c = true → P rest → P (w ++ c :: rest))
    (s : Chars) : P s := by
  have parts := List.takeWhile_append_dropWhile (p := fun c => !isBlank c) (l := s)
  have solid : ∀ c ∈ s.takeWhile fun c => !isBlank c, isBlank c = false := fun c member => by
    simpa using List.all_eq_true.mp List.all_takeWhile c member
  cases dropped : s.dropWhile fun c => !isBlank c with
  | nil =>
      rw [dropped, List.append_nil] at parts
      exact last s (parts ▸ solid)
  | cons c rest =>
      have stop := drop_stop (fun c => !isBlank c) s
      have smaller : rest.length < s.length := by
        rw [← parts, dropped, List.length_append, List.length_cons]
        omega
      rw [dropped] at parts stop
      rw [← parts]
      exact more _ c rest solid (by simpa using stop) (word_induction last more rest)
termination_by s.length

end Text

namespace Code

theorem flatten_cons (c : Char) (s : Chars) (alone : c = '\r' → s.head? ≠ some '\n') :
    flattenLines (c :: s) = (if c == '\n' || c == '\r' then ' ' else c) :: flattenLines s := by
  rw [flattenLines]
  rintro rest rfl rfl
  exact alone rfl rfl

theorem flatten_split (a : Chars) (c : Char) (s : Chars) (other : c ≠ '\n') :
    flattenLines (a ++ c :: s) = flattenLines a ++ flattenLines (c :: s) := by
  induction a using flattenLines.induct with
  | case1 a ih =>
      rw [List.cons_append, List.cons_append, flattenLines, flattenLines, ih]
      rfl
  | case2 d a alone ih =>
      have apart (rest : Chars) (feed : a.head? ≠ some '\n' → rest.head? ≠ some '\n') :
          d = '\r' → rest.head? ≠ some '\n' := by
        rintro rfl
        refine feed fun newline => ?_
        obtain ⟨more, rfl⟩ := List.head?_eq_some_iff.mp newline
        exact alone more rfl rfl
      rw [List.cons_append, flatten_cons d a (apart a id), flatten_cons d (a ++ c :: s) (apart _ fun feed => ?_), ih]
      · rfl
      · cases a with
        | nil => simpa using other
        | cons e a => exact feed
  | case3 => rfl

theorem flatten_solid (p s : Chars) (solid : ∀ c ∈ p, Text.isBlank c = false) :
    flattenLines (p ++ s) = p ++ flattenLines s := by
  induction p with
  | nil => rfl
  | cons c p ih =>
      rw [List.forall_mem_cons] at solid
      have feed : c ≠ '\n' := by
        rintro rfl
        exact absurd solid.1 (by decide)
      have carriage : c ≠ '\r' := by
        rintro rfl
        exact absurd solid.1 (by decide)
      rw [List.cons_append, flatten_cons c _ (fun same => absurd same carriage), ih solid.2]
      simp [feed, carriage]

end Code

section

variable (pieces : List Chars) (compact : ∀ piece ∈ pieces, Compact piece)

include compact

theorem carries_one_spaced (s : Chars) (carries : Carries pieces s) : Carries pieces (Text.oneSpaced s) := by
  induction s using Text.word_induction generalizing pieces with
  | last w solid => rwa [Text.one_spaced_solid w solid]
  | more w c rest solid blank ih =>
      obtain ⟨a, b, rfl, here, later⟩ := carries_split pieces compact w rest c blank carries
      rw [List.forall_mem_append] at compact
      rw [Text.one_spaced_blank w rest c solid blank]
      exact carries_append a b _ _ (carries_after a w _ here) (ih b compact.2 later)

theorem carries_heading (style : HeadingStyle) (level : Nat) (content : Chars) (carries : Carries pieces content) :
    Carries pieces (Block.headingText style level content) := by
  have text := carries_one_spaced pieces compact content carries
  unfold Block.headingText
  dsimp only
  split
  · exact carries_after pieces _ _ text
  · have marked := carries_before pieces (List.replicate level '#' ++ [' ']) _ text
    rwa [List.append_assoc] at marked

theorem carries_flat (s : Chars) (carries : Carries pieces s) : Carries pieces (Code.flattenLines s) := by
  induction pieces generalizing s with
  | nil => trivial
  | cons piece rest ih =>
      rw [List.forall_mem_cons] at compact
      obtain ⟨before, after, rfl, later⟩ := carries
      obtain ⟨c, more, rfl⟩ := List.exists_cons_of_ne_nil compact.1.some
      have other : c ≠ '\n' := by
        rintro rfl
        exact absurd (compact.1.solid _ List.mem_cons_self) (by decide)
      have flat : Code.flattenLines (before ++ (c :: more) ++ after) =
          Code.flattenLines before ++ (c :: more) ++ Code.flattenLines after := by
        rw [List.append_assoc, List.cons_append, Code.flatten_split before c _ other, ← List.cons_append,
          Code.flatten_solid (c :: more) after compact.1.solid, List.append_assoc]
      exact ⟨_, _, flat, ih compact.2 after later⟩

theorem carries_span (content : Chars) (carries : Carries pieces content) : Carries pieces (Code.span content) := by
  unfold Code.span
  split
  · rename_i empty
    rw [List.isEmpty_iff.mp empty] at carries
    exact carries
  · dsimp only
    rw [List.append_assoc]
    exact carries_around pieces _ _ _ (carries_flat pieces compact content carries)

theorem carries_delimited (text content preferred alternate : Chars) (carries : Carries pieces content) :
    Carries pieces (Inline.delimited text content preferred alternate) := by
  unfold Inline.delimited
  split
  · rename_i blank
    rw [carries_blank pieces compact content (List.all_eq_true.mp blank) carries]
    trivial
  · exact carries_around pieces _ content _ carries

-- The gaps around a core hold nothing that is to be carried.
theorem carries_core (content : Chars) (carries : Carries pieces content) :
    Carries pieces (Whitespace.flanking content).2.1 :=
  carries_trim pieces compact Text.isGap gap_is_blank content carries

theorem carries_trimmed (output : Chars) (carries : Carries pieces output) :
    Carries pieces (Text.trimEnd Text.isBlank (Text.trimStart Render.isLineStart output)) := by
  refine carries_trim_end pieces compact Text.isBlank (fun _ blank => blank) _ ?_
  refine carries_trim_start pieces compact Render.isLineStart (fun c start => ?_) output carries
  simp only [Render.isLineStart, Bool.or_eq_true, beq_iff_eq] at start
  rcases start with (rfl | rfl) | rfl <;> rfl

end

end Downmark
