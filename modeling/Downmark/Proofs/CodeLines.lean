import Downmark.Proofs.Fences
import Downmark.Proofs.ReliableRules
/-!
The lines of a code block. Both rules write every line of the code, and leave out only the empty one behind its final
newline. Main statement: a second empty line at the end is lost, too, and that is all that is ever lost.
-/

set_option autoImplicit false

namespace Downmark.Code

/-- The code without its final newline, if it ends in one. -/
def unended (code : Chars) : Chars := if code.getLast? = some '\n' then code.dropLast else code

/-- The lines that are written of some code: of two newlines at its end neither opens a line. -/
def keptLines (code : Chars) : List Chars :=
  if ['\n', '\n'] <:+ code then (Text.lines (unended code)).dropLast else Text.lines (unended code)

theorem unended_newline (s : Chars) : unended (s ++ ['\n']) = s := by simp [unended]

theorem drop_two (s : Chars) : dropFinalNewlines (s ++ ['\n', '\n']) = s := by simp [dropFinalNewlines]

theorem drop_one (code : Chars) (single : ¬ ['\n', '\n'] <:+ code) : dropFinalNewlines code = unended code := by
  obtain ⟨s, rfl⟩ := List.reverse_surjective code
  have other : ¬ ['\n', '\n'] <+: s := by simpa [← List.reverse_prefix] using single
  unfold dropFinalNewlines
  rw [List.reverse_reverse]
  split
  · exact absurd ⟨_, rfl⟩ other
  · rw [List.reverse_cons, unended_newline]
  · rename_i ended
    have last : ¬ s.head? = some '\n' := fun first => by
      obtain ⟨rest, rfl⟩ := List.head?_eq_some_iff.mp first
      exact ended rest rfl
    rw [unended, if_neg (by simpa using last)]

theorem kept_lines (code : Chars) : keptLines code = Text.lines (dropFinalNewlines code) := by
  unfold keptLines
  split
  · rename_i doubled
    obtain ⟨s, rfl⟩ := doubled
    have inner : s ++ ['\n', '\n'] = (s ++ ['\n']) ++ ['\n'] := by simp
    rw [drop_two, inner, unended_newline, Text.lines_break, Text.lines_nil, List.dropLast_concat]
  · rename_i single
    rw [drop_one code single]

theorem kept_all_iff (code : Chars) :
    keptLines code = Text.lines (unended code) ↔ ¬ ['\n', '\n'] <:+ code := by
  unfold keptLines
  split
  · rename_i doubled
    refine iff_of_false (fun same => ?_) (not_not.mpr doubled)
    have counted := congrArg List.length same
    have some := List.length_pos_iff.mpr (Text.lines_ne_nil (unended code))
    rw [List.length_dropLast] at counted
    omega
  · rename_i single
    exact iff_of_true rfl single

theorem runs_end (c x : Char) (s : Chars) (other : x ≠ c) : runs c (s ++ [x]) = runs c s := by
  rw [runs_split, runs_split, split_end c x s other]

-- The newlines at its end do not change what fence the code needs.
theorem fence_kept (marker : FenceMarker) (code : Chars) :
    fenceFor marker.char (dropFinalNewlines code) = fenceFor marker.char code := by
  have other : '\n' ≠ marker.char := by cases marker <;> decide
  have shorter (s : Chars) : fenceFor marker.char (s ++ ['\n']) = fenceFor marker.char s := by
    unfold fenceFor fenceLength
    rw [runs_end _ _ s other]
  by_cases doubled : ['\n', '\n'] <:+ code
  · obtain ⟨s, rfl⟩ := doubled
    have inner : s ++ ['\n', '\n'] = (s ++ ['\n']) ++ ['\n'] := by simp
    rw [drop_two, inner, shorter, shorter]
  · rw [drop_one code doubled, unended]
    split
    · rename_i ended
      obtain ⟨s, rfl⟩ := List.getLast?_eq_some_iff.mp ended
      rw [List.dropLast_concat, shorter]
    · rfl

theorem lines_apart (s : Chars) : Text.lines (Block.apart s) = [] :: [] :: (Text.lines s ++ [[], []]) := by
  have shape : Block.apart s = '\n' :: '\n' :: (s ++ '\n' :: ['\n']) := by simp [Block.apart]
  rw [shape, Text.lines_cons, if_pos (by rfl), Text.lines_cons, if_pos (by rfl), Text.lines_break]
  rfl

theorem line_free (s : Chars) : ∀ line ∈ Text.lines s, '\n' ∉ line := by
  induction s using Text.line_induction with
  | last line free =>
      rw [Text.lines_free line free]
      simpa using free
  | more line rest free ih =>
      rw [Text.lines_newline line rest free, List.forall_mem_cons]
      exact ⟨free, ih⟩

theorem lines_indented (code : Chars) :
    Text.lines (indented code) = (Text.lines code).map (Text.spaces 4 ++ ·) := by
  refine Text.lines_unlines _ (by simpa using Text.lines_ne_nil code) ?_
  rw [List.forall_mem_map]
  intro line member
  have free := line_free code line member
  simpa [Text.spaces] using free

theorem lines_fenced (marker : FenceMarker) (info code : Chars) : Text.lines (fenced marker.char info code) =
    Text.lines (fenceFor marker.char code ++ info) ++ (Text.lines code ++ [fenceFor marker.char code]) := by
  have closing : '\n' ∉ fenceFor marker.char code := fun member => (marker_line marker _ _ member).1 rfl
  have whole : fenced marker.char info code =
      (fenceFor marker.char code ++ info) ++ '\n' :: (code ++ '\n' :: fenceFor marker.char code) := by simp [fenced]
  rw [whole, Text.lines_break, Text.lines_break, Text.lines_free _ closing]

-- Comments and text have nothing below them, so among such children the search comes to the code element first.
theorem sole_code_found (n code : Marked) (sole : Node.significant n.kids = [code]) (named : code.isNamed "code" = true)
    (flat : ∀ m ks, Node.document m ks ∉ n.kids) : n.find? "code" = some code := by
  unfold Node.find?
  rw [Node.descendants_kids]
  generalize n.kids = ks at sole flat
  induction ks with
  | nil => cases sole
  | cons first rest ih =>
      have later : ∀ m ks, Node.document m ks ∉ rest := fun m ks member => flat m ks (List.mem_cons_of_mem _ member)
      rw [Node.forest]
      cases first with
      | text m data =>
          cases blank : Text.isBlankText data with
          | true => exact ih (by simpa [Node.significant, blank] using sole) later
          | false =>
              have seen : Node.significant (.text m data :: rest) = .text m data :: Node.significant rest := by
                simp [Node.significant, blank]
              obtain ⟨rfl, -⟩ := List.cons.inj (seen.symm.trans sole)
              cases named
      | comment m data => exact ih sole later
      | document m ks => exact absurd List.mem_cons_self (flat m ks)
      | element m t a ks =>
          have seen : Node.significant (.element m t a ks :: rest) = .element m t a ks :: Node.significant rest := by
            simp [Node.significant]
          obtain ⟨rfl, -⟩ := List.cons.inj (seen.symm.trans sole)
          exact List.find?_cons_of_pos named

theorem code_block_shape (n : Marked) (block : isBlock n = true) :
    ∃ child code, Node.significant n.kids = [child] ∧ child.isNamed "code" = true ∧ n.find? "code" = some code ∧
      ((∀ m ks, Node.document m ks ∉ n.kids) → code = child) := by
  obtain ⟨code, found⟩ := block_has_code n block
  obtain ⟨-, single⟩ := (Bool.and_eq_true _ _).mp block
  have held : n.find? "code" = some code := by
    unfold codeElement at found
    split at found
    · rename_i other same
      rw [same, Except.ok.inj found]
    · cases found
  split at single
  · rename_i child sole
    refine ⟨child, code, sole, single, held, fun flat => ?_⟩
    exact Option.some.inj (held.symm.trans (sole_code_found n child sole single flat))
  · cases single

theorem found_text (n code : Marked) (held : n.find? "code" = some code) :
    blockText n = .ok (dropFinalNewlines code.textContent) := by
  rw [blockText, codeElement, held]
  rfl

theorem code_block_lines_kept (site : Site) (block : isBlock site.node = true) :
    ∃ child code info, Node.significant site.node.kids = [child] ∧ child.isNamed "code" = true ∧
      site.node.find? "code" = some code ∧ ((∀ m ks, Node.document m ks ∉ site.node.kids) → code = child) ∧
      language site.node = .ok info ∧
      (∀ content o s, ∃ plain walled, Block.indentedCode content site o s = .ok plain s ∧
        Block.fencedCode content site o s = .ok walled s ∧
        Text.lines plain = [] :: [] :: ((keptLines code.textContent).map (Text.spaces 4 ++ ·) ++ [[], []]) ∧
        Text.lines walled = [] :: [] :: (Text.lines (fenceFor o.fence.char code.textContent ++ info) ++
          keptLines code.textContent ++ [fenceFor o.fence.char code.textContent, [], []])) ∧
      (keptLines code.textContent = Text.lines (unended code.textContent) ↔
        ¬ ['\n', '\n'] <:+ code.textContent) := by
  obtain ⟨child, code, sole, named, found, same⟩ := code_block_shape site.node block
  obtain ⟨-, info, -, told⟩ := block_read site.node block
  have text := found_text site.node code found
  refine ⟨child, code, info, sole, named, found, same, told, fun content o s => ?_, kept_all_iff _⟩
  refine ⟨Block.apart (indented (dropFinalNewlines code.textContent)),
    Block.apart (fenced o.fence.char info (dropFinalNewlines code.textContent)), ?_, ?_, ?_, ?_⟩
  · rw [Block.indentedCode, text]
    rfl
  · rw [Block.fencedCode, text, told]
    rfl
  · rw [lines_apart, lines_indented, kept_lines]
  · rw [lines_apart, lines_fenced, fence_kept, kept_lines, List.append_assoc, List.append_assoc, List.append_assoc]
    rfl

-- White space and a comment beside the code are no part of it.
def notedCode : Tree :=
  .element () "pre" [] [.text () ['\n'], .comment () ['x'],
    .element () "code" [("class", "lang-py".toList)]
      [.text () "if a:\n".toList, .element () "b" [] [.text () " b\n".toList]]]

theorem noted_code_lines : isBlock (Site.ofTree notedCode).node = true ∧
    ∃ plain walled, Block.indentedCode [] (Site.ofTree notedCode) {} {} = .ok plain {} ∧
      Block.fencedCode [] (Site.ofTree notedCode) {} {} = .ok walled {} ∧
      Text.lines plain = [[], [], "    if a:".toList, "     b".toList, [], []] ∧
      Text.lines walled = [[], [], "```py".toList, "if a:".toList, " b".toList, "```".toList, [], []] := by
  have block : isBlock (Site.ofTree notedCode).node = true := by decide
  obtain ⟨child, code, info, -, -, found, -, told, written, -⟩ :=
    code_block_lines_kept (Site.ofTree notedCode) block
  obtain ⟨plain, walled, indented, fenced, lines, others⟩ := written [] {} {}
  have text : code.textContent = "if a:\n b\n".toList := by
    cases found
    decide
  have named : info = "py".toList := by
    cases told
    decide
  have kept : keptLines "if a:\n b\n".toList = ["if a:".toList, " b".toList] := by decide
  have fence : fenceFor '`' "if a:\n b\n".toList = "```".toList := by decide
  rw [text, kept] at lines others
  refine ⟨block, plain, walled, indented, fenced, lines, ?_⟩
  rw [others, named, FenceMarker.char, fence]
  decide

def doublyEnded : Tree := .element () "pre" [] [.element () "code" [] [.text () "a\n\n".toList]]

-- The empty line before the final newline is gone.
theorem blank_line_lost : ¬ ∀ (site : Site) (code : Marked), isBlock site.node = true → site.node.kids = [code] →
    ∀ content o s written t, Block.fencedCode content site o s = .ok written t → ∃ opening closing,
      Text.lines written = [] :: [] :: opening :: (Text.lines (unended code.textContent) ++ [closing, [], []]) := by
  intro always
  obtain ⟨opening, closing, same⟩ := always (Site.ofTree doublyEnded) _ (by decide) rfl [] {} {} _ _ rfl
  have counted : (7 : Nat) = 8 := congrArg List.length same
  exact absurd counted (by decide)

end Downmark.Code
