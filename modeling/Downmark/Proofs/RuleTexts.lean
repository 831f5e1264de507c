import Downmark.Proofs.LabelKeys
import Downmark.Proofs.Margins
/-!
The margins of what single rules write: headings, quotes, code blocks, and items behind their markers. Main
statement: each of them begins with something to see, or as its content does.
-/

set_option autoImplicit false

namespace Downmark

-- Something to see, no more than that it is there.
def Inked (s : Chars) : Prop := ∃ c rest, s = c :: rest ∧ Ink c

theorem begins_inked (s : Chars) (inked : Inked s) : Begins s := by
  obtain ⟨c, rest, rfl, ink⟩ := inked
  exact begins_ink c rest ink

theorem edge_inked (s : Chars) (inked : Inked s) : Edge s := by
  obtain ⟨c, rest, rfl, ink⟩ := inked
  exact edge_stop c rest ink.gap

theorem inked_append (s t : Chars) (inked : Inked s) : Inked (s ++ t) := by
  obtain ⟨c, rest, rfl, ink⟩ := inked
  exact ⟨c, rest ++ t, rfl, ink⟩

theorem neat_between (a b s : Chars) (opening : Inked a) (closing : Inked b.reverse) : Neat (a ++ s ++ b) := by
  have begins := inked_append (a ++ s) b (inked_append a s opening)
  refine ⟨⟨edge_inked _ begins, ?_⟩, begins_inked _ begins⟩
  rw [List.reverse_append]
  exact edge_inked _ (inked_append _ _ closing)

theorem digit_ink (c : Char) (digit : '0' ≤ c ∧ c ≤ '9') : Ink c := by
  obtain ⟨low, high⟩ := digit
  have other (d : Char) (outside : d < '0') : c ≠ d := by
    rintro rfl
    exact absurd low (Nat.not_le.mpr outside)
  refine ⟨?_, other '\n' (by decide), other '\r' (by decide)⟩
  simp [Text.isGap, other ' ' (by decide), other '\t' (by decide)]

structure MarkerLike (s : Chars) : Prop where
  inked : Inked s
  free : '\t' ∉ s
  line : '\n' ∉ s

theorem numbered_marker (n : Int) : MarkerLike (ListMarker.numbered n) := by
  have digits (k : Nat) (c : Char) (other : c < '0') : c ∉ Text.ofNat k := fun member =>
    absurd (Text.of_nat_digits k c member).1 (Nat.not_le.mpr other)
  have tab (k : Nat) : '\t' ∉ Text.ofNat k := digits k '\t' (by decide)
  have newline (k : Nat) : '\n' ∉ Text.ofNat k := digits k '\n' (by decide)
  unfold ListMarker.numbered Text.ofInt
  split
  · exact ⟨⟨'-', _, rfl, ⟨rfl, by decide, by decide⟩⟩, by simp [tab], by simp [newline]⟩
  · obtain ⟨c, rest, shape⟩ := List.exists_cons_of_ne_nil (Text.of_nat_ne_nil n.natAbs)
    have first : Ink c := digit_ink c (Text.of_nat_digits n.natAbs c (by simp [shape]))
    exact ⟨inked_append _ _ ⟨c, rest, shape, first⟩, by simp [tab], by simp [newline]⟩

theorem bullet_marker (o : Options) : MarkerLike (ListMarker.bullet o) := by
  unfold ListMarker.bullet
  cases o.bulletMarker <;> exact ⟨⟨_, _, rfl, ⟨rfl, by decide, by decide⟩⟩, by decide, by decide⟩

theorem of_item_marker (o : Options) (site : Site) : MarkerLike (ListMarker.ofItem o site) := by
  unfold ListMarker.ofItem
  split
  · exact numbered_marker _
  · exact bullet_marker o

theorem of_list_markers {μ : Type} (o : Options) (n : Node μ) :
    ∀ marker ∈ ListMarker.ofList o n, MarkerLike marker := by
  unfold ListMarker.ofList
  dsimp only
  split
  · intro marker member
    obtain ⟨i, -, rfl⟩ := List.mem_map.mp member
    exact numbered_marker _
  · intro marker member
    rw [(List.mem_replicate.mp member).2]
    exact bullet_marker o

namespace Text

theorem push_word_mem (word w : Chars) (rest : List Chars) (member : w ∈ pushWord word rest) :
    w = word ∨ w ∈ rest := by
  unfold pushWord at member
  split at member
  · exact .inr member
  · exact List.mem_cons.mp member

theorem words_mem (s : Chars) : ∀ w ∈ words s, ∀ c ∈ w, isBlank c = false := by
  have gathered : (∀ c ∈ (s.foldr gather ([], [])).1, isBlank c = false) ∧
      ∀ w ∈ (s.foldr gather ([], [])).2, ∀ c ∈ w, isBlank c = false := by
    induction s with
    | nil => simp
    | cons c s ih =>
        obtain ⟨current, others⟩ := ih
        rw [List.foldr_cons, gather]
        split
        · refine ⟨by simp, fun w member => ?_⟩
          rcases push_word_mem _ w _ member with rfl | later
          · exact current
          · exact others w later
        · rename_i solid
          exact ⟨List.forall_mem_cons.mpr ⟨by simpa using solid, current⟩, others⟩
  intro w member
  rw [words_gathered] at member
  rcases push_word_mem _ w _ member with rfl | later
  · exact gathered.1
  · exact gathered.2 w later

theorem intercalate_mem (sep : Chars) (ws : List Chars) (c : Char) (member : c ∈ sep.intercalate ws) :
    c ∈ sep ∨ ∃ w ∈ ws, c ∈ w := by
  induction ws with
  | nil => simp [List.intercalate] at member
  | cons w ws ih =>
      cases ws with
      | nil => exact .inr ⟨w, List.mem_cons_self, by simpa [List.intercalate] using member⟩
      | cons v ws =>
          rw [List.intercalate_cons_cons, List.append_assoc] at member
          rcases List.mem_append.mp member with here | later
          · exact .inr ⟨w, List.mem_cons_self, here⟩
          · rcases List.mem_append.mp later with between | further
            · exact .inl between
            · exact (ih further).imp_right fun ⟨u, listed, inside⟩ => ⟨u, List.mem_cons_of_mem w listed, inside⟩

theorem one_spaced_mem (s : Chars) (c : Char) (member : c ∈ oneSpaced s) : c = ' ' ∨ isBlank c = false := by
  rcases intercalate_mem [' '] (words s) c member with space | ⟨w, listed, inside⟩
  · exact .inl (List.mem_singleton.mp space)
  · exact .inr (words_mem s w listed c inside)

end Text

theorem one_spaced_free (s : Chars) : ∀ c ∈ Text.oneSpaced s, c ≠ '\t' ∧ c ≠ '\r' := by
  intro c member
  rcases Text.one_spaced_mem s c member with rfl | solid
  · exact ⟨by decide, by decide⟩
  · exact ⟨by rintro rfl; exact absurd solid (by decide), by rintro rfl; exact absurd solid (by decide)⟩

theorem heading_begins (style : HeadingStyle) (level : Nat) (content : Chars) (deep : level ≠ 0) :
    Begins (Block.headingText style level content) := by
  unfold Block.headingText
  dsimp only
  split
  · refine begins_free _ fun c member => ?_
    rcases List.mem_append.mp member with inside | after
    · exact one_spaced_free content c inside
    · rcases List.mem_cons.mp after with rfl | under
      · exact ⟨by decide, by decide⟩
      · rw [(List.mem_replicate.mp under).2]
        split <;> exact ⟨by decide, by decide⟩
  · obtain ⟨j, rfl⟩ := Nat.exists_eq_succ_of_ne_zero deep
    exact begins_ink '#' _ ⟨rfl, by decide, by decide⟩

theorem quote_begins (content : Chars) : Begins (Block.quoteText content) := by
  unfold Block.quoteText
  obtain ⟨first, rest, shape⟩ := List.exists_cons_of_ne_nil (Text.lines_ne_nil (Text.trim Text.isNewline content))
  have line : Inked (Block.quoteLine first) := by
    unfold Block.quoteLine
    split <;> exact ⟨'>', _, rfl, ⟨rfl, by decide, by decide⟩⟩
  rw [shape, List.map_cons]
  cases rest with
  | nil => simpa [Text.unlines, List.intercalate] using begins_inked _ line
  | cons next more =>
      rw [Text.unlines_cons _ _ (by simp)]
      exact begins_inked _ (inked_append _ _ line)

theorem indented_begins (code : Chars) : Begins (Code.indented code) := by
  unfold Code.indented
  obtain ⟨first, rest, shape⟩ := List.exists_cons_of_ne_nil (Text.lines_ne_nil code)
  have spaces (s : Chars) : Begins (Text.spaces 4 ++ s) := by
    intro c member
    obtain rfl : ' ' = c := by simpa [Text.spaces, List.replicate, Text.trimStart, Text.isNewline] using member
    exact ⟨by decide, by decide⟩
  rw [shape, List.map_cons]
  cases rest with
  | nil => simpa [Text.unlines, List.intercalate] using spaces first
  | cons next more =>
      rw [Text.unlines_cons _ _ (by simp), List.append_assoc]
      exact spaces _

theorem fenced_begins (c : Char) (info code : Chars) (ink : Ink c) : Begins (Code.fenced c info code) := by
  have long : Code.fenceLength c code ≠ 0 := by
    unfold Code.fenceLength
    dsimp only
    split <;> simp [Code.minFence]
  obtain ⟨j, length⟩ := Nat.exists_eq_succ_of_ne_zero long
  have fence : Code.fenceFor c code = c :: List.replicate j c := by
    rw [Code.fenceFor, length, List.replicate_succ]
  exact begins_inked _ (inked_append _ _ (inked_append _ _ (inked_append _ _ ⟨c, _, fence, ink⟩)))

def indentLine (indent line : Chars) : Chars := if line.isEmpty then line else indent ++ line

theorem indent_lines_free (indent line : Chars) (free : '\n' ∉ line) : Block.indentLines line indent = line := by
  rw [Block.indentLines, Text.lines_free line free]
  simp [Text.unlines, List.intercalate]

theorem indent_lines_newline (indent line rest : Chars) (free : '\n' ∉ line) :
    Block.indentLines (line ++ '\n' :: rest) indent =
      line ++ '\n' :: Escape.onLines (indentLine indent) rest := by
  rw [Block.indentLines, Text.lines_newline line rest free]
  exact Text.unlines_cons line _ (by simpa using Text.lines_ne_nil rest)

theorem indent_line_edge (indent line : Chars) (free : '\t' ∉ indent) (edge : Edge line.reverse) :
    Edge (indentLine indent line).reverse := by
  unfold indentLine
  split
  · exact edge
  · rw [List.reverse_append]
    exact edge_append _ _ edge (clean_gaps indent free).last

theorem edge_newline (s rest : Chars) (edge : Edge rest.reverse) : Edge (s ++ '\n' :: rest).reverse := by
  rw [List.reverse_append, List.reverse_cons, List.append_assoc]
  exact edge_append _ _ edge (edge_stop '\n' _ rfl)

theorem on_lines_edge (indent s : Chars) (free : '\t' ∉ indent) (edge : Edge s.reverse) :
    Edge (Escape.onLines (indentLine indent) s).reverse := by
  induction s using Text.line_induction with
  | last line none =>
      rw [Escape.on_lines_free _ line none]
      exact indent_line_edge indent line free edge
  | more line rest none ih =>
      rw [Escape.on_lines_newline _ line rest none]
      exact edge_newline _ _ (ih (edge_after (line ++ ['\n']) rest (by simpa using edge)))

theorem indent_edge (indent s : Chars) (free : '\t' ∉ indent) (edge : Edge s.reverse) :
    Edge (Block.indentLines s indent).reverse := by
  induction s using Text.line_induction with
  | last line none =>
      rw [indent_lines_free indent line none]
      exact edge
  | more line rest none _ =>
      rw [indent_lines_newline indent line rest none]
      exact edge_newline _ _ (on_lines_edge indent rest free (edge_after (line ++ ['\n']) rest (by simpa using edge)))

theorem one_final_newline_edge (content : Chars) (edge : Edge content.reverse) :
    Edge (Block.oneFinalNewline content).reverse := by
  unfold Block.oneFinalNewline
  dsimp only
  split
  · exact edge_newline _ [] edge_nil
  · obtain ⟨run, whole, -⟩ := Text.trim_start_run Text.isNewline content
    exact edge_after run _ (whole ▸ edge)

theorem item_neat (marker content : Chars) (like : MarkerLike marker) (neat : Neat content) :
    Neat (Block.itemText marker content) := by
  have last := indent_edge (Text.spaces marker.length) _ (by simp [Text.spaces])
    (one_final_newline_edge content neat.clean.last)
  have begins := inked_append marker (Block.indentLines (Block.oneFinalNewline content)
    (Text.spaces marker.length)) like.inked
  refine ⟨⟨edge_inked _ begins, ?_⟩, begins_inked _ begins⟩
  rw [Block.itemText, List.reverse_append]
  exact edge_append _ _ last (clean_gaps marker like.free).last

end Downmark
