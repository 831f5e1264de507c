import Downmark.Proofs.Delimiters
import Downmark.Proofs.Pipes
import Downmark.Proofs.ShownCode
import Downmark.Proofs.TableRules
/-!
Texts in which each backslash is paired with the character that it escapes. In such a text no pipe is shielded.
Main statement: where no rule but those of running text is used, content is paired, as long as no text is written into
code with a backslash in it, or preformatted with a pipe.
-/

set_option autoImplicit false

namespace Downmark

open Escape Node

/-- Every backslash stands right before a character of its own, which is neither white space nor a pipe. -/
inductive Paired : Chars → Prop where
  | nil : Paired []
  | plain (c : Char) (s : Chars) (other : c ≠ '\\') (rest : Paired s) : Paired (c :: s)
  | slashed (c : Char) (s : Chars) (solid : Text.isBlank c = false) (other : c ≠ '|') (rest : Paired s) :
      Paired ('\\' :: c :: s)

theorem paired_free (s : Chars) (free : '\\' ∉ s) : Paired s := by
  induction s with
  | nil => exact .nil
  | cons c s ih =>
      rw [List.mem_cons, not_or] at free
      exact .plain c s (Ne.symm free.1) (ih free.2)

theorem paired_blank (s : Chars) (blank : ∀ c ∈ s, Text.isBlank c = true) : Paired s :=
  paired_free s (Gfm.blank_other s blank '\\' rfl)

theorem paired_append (a b : Chars) (first : Paired a) (later : Paired b) : Paired (a ++ b) := by
  induction first with
  | nil => exact later
  | plain c s other _ ih => exact .plain c _ other ih
  | slashed c s solid other _ ih => exact .slashed c _ solid other ih

theorem paired_after (run s : Chars) (blank : ∀ c ∈ run, Text.isBlank c = true) (paired : Paired (run ++ s)) :
    Paired s := by
  induction run with
  | nil => exact paired
  | cons c run ih =>
      rw [List.forall_mem_cons] at blank
      rw [List.cons_append] at paired
      generalize run ++ s = rest at paired ih
      cases paired with
      | plain _ _ _ paired => exact ih blank.2 paired
      | slashed => cases blank.1

theorem paired_before (s run : Chars) (blank : ∀ c ∈ run, Text.isBlank c = true) (paired : Paired (s ++ run)) :
    Paired s := by
  generalize whole : s ++ run = w at paired
  induction paired generalizing s with
  | nil => exact (List.append_eq_nil_iff.mp whole).1 ▸ .nil
  | plain c w other _ ih =>
      cases s with
      | nil => exact .nil
      | cons d s =>
          obtain ⟨rfl, rest⟩ := List.cons.inj whole
          exact .plain d s other (ih s rest)
  | slashed c w solid other _ ih =>
      match s with
      | [] => exact .nil
      | [d] =>
          -- The backslash would be parted from a character that is white space.
          obtain rfl := (List.cons.inj whole).2
          exact absurd (solid.symm.trans (blank c List.mem_cons_self)) Bool.false_ne_true
      | d :: e :: s =>
          obtain ⟨rfl, tail⟩ := List.cons.inj whole
          obtain ⟨rfl, shorter⟩ := List.cons.inj tail
          exact .slashed e s solid other (ih s shorter)

section

variable (p : Char → Bool) (blank : ∀ c, p c = true → Text.isBlank c = true)

include blank

theorem paired_trim_start (s : Chars) (paired : Paired s) : Paired (Text.trimStart p s) := by
  obtain ⟨run, whole, all⟩ := Text.trim_start_run p s
  rw [whole] at paired
  exact paired_after run _ (fun c member => blank c (all c member)) paired

theorem paired_trim_end (s : Chars) (paired : Paired s) : Paired (Text.trimEnd p s) := by
  obtain ⟨run, whole, all⟩ := Text.trim_end_run p s
  rw [whole] at paired
  exact paired_before _ run (fun c member => blank c (all c member)) paired

theorem paired_trim (s : Chars) (paired : Paired s) : Paired (Text.trim p s) :=
  paired_trim_end p blank _ (paired_trim_start p blank s paired)

end

theorem paired_join (a b : Chars) (first : Paired a) (later : Paired b) : Paired (join a b) := by
  obtain ⟨-, -, k, -, -, joined, -⟩ := join_runs a b
  have newlines : Paired (List.replicate k '\n') := paired_free _ fun member => by cases List.eq_of_mem_replicate member
  rw [joined]
  exact paired_append _ _ (paired_trim_end _ newline_is_blank a first)
    (paired_append _ _ newlines (paired_trim_start _ newline_is_blank b later))

theorem paired_apart (s : Chars) (paired : Paired s) : Paired (Block.apart s) := by
  have newlines : Paired ['\n', '\n'] := paired_free _ (by simp)
  exact paired_append _ _ (paired_append ['\n', '\n'] s newlines paired) newlines

theorem paired_flat (s : Chars) (paired : Paired s) : Paired (Code.flattenLines s) := by
  induction paired with
  | nil => exact .nil
  | plain c s other rest ih =>
      by_cases feed : c = '\r' ∧ s.head? = some '\n'
      · obtain ⟨rfl, newline⟩ := feed
        obtain ⟨tail, rfl⟩ := List.head?_eq_some_iff.mp newline
        rw [Code.flattenLines]
        rwa [Code.flatten_cons '\n' tail (by simp)] at ih
      · rw [Code.flatten_cons c s fun carriage newline => feed ⟨carriage, newline⟩]
        refine .plain _ _ ?_ ih
        split
        · simp
        · exact other
  | slashed c s solid other rest ih =>
      have kept := Code.flatten_solid ['\\', c] s fun d member => by
        simp only [List.mem_cons, List.not_mem_nil, or_false] at member
        rcases member with rfl | rfl
        · rfl
        · exact solid
      exact kept ▸ .slashed c _ solid other ih

theorem paired_open (x s : Chars) (paired : Paired s) (start : ¬ Shielded x) :
    ¬ Shielded (x ++ s) ∧ Gfm.pipes true x s = 0 := by
  induction paired generalizing x with
  | nil => exact ⟨by rwa [List.append_nil], rfl⟩
  | plain c s other _ ih =>
      obtain ⟨ends, none⟩ := ih (x ++ [c]) (by simp [shielded_last, other])
      rw [List.append_cons, Gfm.pipes, none, if_neg fun both => start (of_decide_eq_true both.2)]
      exact ⟨ends, rfl⟩
  | slashed c s solid other _ ih =>
      have odd : Shielded (x ++ ['\\']) := (shielded_last x '\\').mpr ⟨rfl, start⟩
      obtain ⟨ends, none⟩ := ih (x ++ ['\\'] ++ [c]) fun both => ((shielded_last _ c).mp both).2 odd
      rw [List.append_cons, List.append_cons, Gfm.pipes, Gfm.pipes, none,
        if_neg fun both => start (of_decide_eq_true both.2), if_neg fun both => other both.1]
      exact ⟨ends, rfl⟩

/-! Texts -/

theorem spelled_paired (special : Chars) (start : Bool) (s w : Chars) (spelled : Spelled special start s w)
    (slash : '\\' ∈ special) (known : ∀ c ∈ special, c ∈ allSpecial) (apart : ∀ c ∈ special, c ∈ s → c ≠ '|') :
    Paired w := by
  induction spelled with
  | nil => exact .nil
  | plain start c s w common _ _ ih =>
      exact .plain c w (fun same => common (same ▸ slash)) (ih fun d listed member =>
        apart d listed (List.mem_cons_of_mem _ member))
  | slashed start c s w reason _ ih =>
      have rest := ih fun d listed member => apart d listed (List.mem_cons_of_mem _ member)
      have solid (d : Char) (listed : d ∈ allSpecial ++ '<' :: '&' :: lineSpecial) : Text.isBlank d = false := by
        have all : (allSpecial ++ '<' :: '&' :: lineSpecial).all (fun d => !Text.isBlank d) = true := by decide
        simpa using List.all_eq_true.mp all d listed
      have opens (marked : opensMarkup c w = true) : c = '<' ∨ c = '&' := by
        by_contra other
        rw [not_or] at other
        simp [opensMarkup, other] at marked
      rcases reason with listed | marked | ⟨-, listed⟩
      · exact .slashed c w (solid c (List.mem_append_left _ (known c listed))) (apart c listed List.mem_cons_self) rest
      · rcases opens marked with rfl | rfl <;> exact .slashed _ w rfl (by decide) rest
      · refine .slashed c w (solid c (by simp [listed])) ?_ rest
        rintro rfl
        exact absurd listed (by decide)

namespace Render

section

variable (o : Options)

-- All but white space of what a text node shows is in its data, or in what is noted on it.
theorem text_members (s : State) (m : Mark) (data : Chars) (c : Char) (solid : Whitespace.isCollapsible c = false)
    (member : c ∈ s.textOf o m data) : c ∈ m.shown.getD data := by
  unfold State.textOf at member
  cases noted : m.shown with
  | some shown => rwa [noted] at member
  | none =>
      rw [noted] at member
      dsimp only at member
      split at member
      · exact member
      · have inside : c ∈ Glyph.ink (Whitespace.squeeze data) := List.mem_filter.mpr ⟨member, by rw [solid]; rfl⟩
        rw [Whitespace.squeeze, Whitespace.squeeze_from_ink] at inside
        exact (List.mem_filter.mp inside).1

theorem text_paired (s : State) (opened : List Open) (m : Mark) (data : Chars)
    (coded : 0 < s.codeDepth → '\\' ∉ m.shown.getD data)
    (kept : s.codeDepth ≤ 0 → 0 < s.preformattedDepth → '|' ∉ m.shown.getD data) :
    Paired (textOutput s o opened m data) := by
  unfold textOutput
  dsimp only
  split
  · exact paired_free _ fun member =>
      coded (of_decide_eq_true ‹_›) (text_members o s m data '\\' rfl member)
  · rename_i uncoded
    split
    · refine spelled_paired allSpecial true _ _ (preformatted_spelled _ _) (by decide) (fun _ listed => listed) ?_
      rintro c - member rfl
      have flat : s.codeDepth ≤ 0 := Int.not_lt.mp fun deep => uncoded (decide_eq_true deep)
      exact kept flat (of_decide_eq_true ‹_›) (text_members o s m data '|' rfl member)
    · have all : inlineSpecial.all allSpecial.contains = true := by decide
      refine spelled_paired inlineSpecial true _ _ (markdown_spelled _ _) (by decide)
        (fun c listed => List.contains_iff_mem.mp (List.all_eq_true.mp all c listed)) ?_
      rintro c listed - rfl
      exact absurd listed (by decide)

theorem text_barless (s : State) (opened : List Open) (m : Mark) (data : Chars) (free : '|' ∉ m.shown.getD data) :
    '|' ∉ textOutput s o opened m data := fun member =>
  (text_output_mem s o opened m data '|' member).elim (fun inside => free (text_members o s m data '|' rfl inside))
    fun slash => absurd slash (by decide)

/-! Rules -/

theorem delimited_paired (text content preferred alternate : Chars) (paired : Paired content)
    (plain : ∀ d ∈ [preferred, alternate], Paired d) : Paired (Inline.delimited text content preferred alternate) := by
  unfold Inline.delimited
  split
  · exact .nil
  · have chosen : Paired (Inline.chooseDelimiter text content preferred alternate) := by
      unfold Inline.chooseDelimiter
      split_ifs
      · exact plain _ List.mem_cons_self
      · exact plain _ (List.mem_cons_of_mem _ List.mem_cons_self)
      · exact plain _ List.mem_cons_self
    exact paired_append _ _ (paired_append _ _ chosen paired) chosen

theorem span_paired (content : Chars) (paired : Paired content) : Paired (Code.span content) := by
  unfold Code.span
  split
  · exact .nil
  · have ticks (n : Nat) : Paired (List.replicate n '`') := paired_free _ fun member => by
      cases List.eq_of_mem_replicate member
    have padding : Paired (if Code.needsPadding (Code.flattenLines content) then [' '] else []) := by
      split
      · exact paired_free _ (by simp)
      · exact .nil
    have flat := paired_flat content paired
    exact paired_append _ _ (paired_append _ _ (paired_append _ _ (paired_append _ _ (ticks _) padding) flat) padding)
      (ticks _)

/-- The rules of running text. A line break that is written with a backslash escapes nothing and is left out. -/
def textRules (o : Options) : List Rule :=
  [Rule.blank, Rule.default, paragraphRule, emphasisRule, strongRule, Gfm.strikethroughRule, codeRule] ++
    match o.lineBreak with
    | .spaces => [breakRule]
    | .backslash => []

theorem text_rule_paired (content written : Chars) (site : Site) (s u : State) (paired : Paired content) :
    ∀ rule ∈ textRules o, rule.replacement content site o s = .ok written u → Paired written := by
  simp only [textRules, List.cons_append, List.nil_append, List.forall_mem_cons]
  refine ⟨?blank, ?default, ?paragraph, ?emphasis, ?strong, ?struck, ?code, ?lineBreak⟩
  case lineBreak =>
    cases style : o.lineBreak with
    | backslash => exact fun _ member => nomatch member
    | spaces =>
        refine List.forall_mem_singleton.mpr fun worked => ?_
        cases worked
        change Paired (o.lineBreak.text ++ ['\n'])
        rw [style]
        exact paired_free _ (by decide)
  all_goals
    intro worked
    cases worked
    dsimp only
  case blank =>
    split
    · exact paired_free _ (by simp)
    · exact .nil
  case default =>
    split
    · exact paired_apart content paired
    · exact paired
  case paragraph => exact paired_apart content paired
  case emphasis =>
    have plain (d : EmDelimiter) : Paired d.text := paired_free _ (by cases d <;> decide)
    exact delimited_paired _ content _ _ paired (by simp [plain])
  case strong =>
    have plain (d : StrongDelimiter) : Paired d.text := paired_free _ (by cases d <;> decide)
    exact delimited_paired _ content _ _ paired (by simp [plain])
  case struck =>
    split
    · exact paired
    · have tildes : Paired ['~', '~'] := paired_free _ (by simp)
      exact paired_append _ _ (paired_append ['~', '~'] content tildes paired) tildes
  case code => exact span_paired content paired

theorem replace_paired (rule : Rule) (listed : rule ∈ textRules o) (site : Site) (content preceding written : Chars)
    (s u : State) (paired : Paired content) (worked : replace rule site o content preceding s = .ok written u) :
    Paired written := by
  have cases_ := replace_cases rule site o content preceding written s u worked
  split at cases_
  · exact text_rule_paired o content written site s u paired rule listed cases_
  · obtain ⟨inner, trailing, replaced, rfl, last⟩ := cases_
    obtain ⟨leads, trails⟩ := flanking_gaps content
    have core : Paired (Whitespace.flanking content).2.1 := paired_trim Text.isGap gap_is_blank content paired
    have own := text_rule_paired o _ inner site s u core rule listed replaced
    refine paired_append _ _ (paired_append _ _ ?_ own) ?_
    · split
      · exact .nil
      · exact paired_blank _ fun c member => gap_is_blank c (leads c member)
    · rcases last with rfl | rfl
      · exact .nil
      · exact paired_blank _ fun c member => gap_is_blank c (trails c member)

end

mutual

/-- No text below a node is written into code with a backslash in it, or preformatted with a pipe, given how deep in
code and in preformatted text the node stands. -/
def Bare (o : Options) (code kept : Int) : Marked → Prop
  | .text m data => (0 < code → '\\' ∉ m.shown.getD data) ∧ (code ≤ 0 → 0 < kept → '|' ∉ m.shown.getD data)
  | .comment _ _ => True
  | .document _ _ => True
  | .element _ t _ ks =>
    BareAll o (code + if t = "code" then 1 else 0) (kept + if o.preformattedCode && t == "pre" then 1 else 0) ks

def BareAll (o : Options) (code kept : Int) : List Marked → Prop
  | [] => True
  | n :: ns => Bare o code kept n ∧ BareAll o code kept ns

end

/-- An element that is written by a rule of running text. -/
def IsRunning (table : RuleTable) (o : Options) (site : Site) : Prop :=
  ∃ rule ∈ textRules o, table.find site o site.node.mark.blank = .ok rule

mutual

theorem node_paired (table : RuleTable) (keeps : ∀ rule ∈ table.inOrder, KeepsCounters rule.replacement) (o : Options)
    (outer : List Open) (isBlock : Bool) (path : List Step) (output : Chars) (n : Marked) (s u : State)
    (written : Chars) (bare : Bare o s.codeDepth s.preformattedDepth n)
    (running : ∀ below ∈ visits table o path n, IsRunning table o below) (before : Paired output)
    (worked : node table o outer isBlock path output n s = .ok written u) : Paired written := by
  cases n with
  | text m data =>
      cases worked
      exact paired_join _ _ before (text_paired o s _ m data bare.1 bare.2)
  | comment | document =>
      cases worked
      exact before
  | element m t a ks =>
      rw [visits, List.forall_mem_cons] at running
      obtain ⟨⟨rule, listed, found⟩, below⟩ := running
      rw [node_element] at worked
      obtain ⟨text, v, made, ended⟩ := (bind_ok_iff _ _ _ _ _).mp worked
      cases ended
      obtain ⟨other, content, middle, last, chosen, read, replaced, -⟩ :=
        element_steps table o outer isBlock path output m t a ks text s _ made
      obtain rfl : rule = other := Except.ok.inj (found.symm.trans chosen)
      have paired : Paired content := by
        unfold contentText at read
        split at read
        · rename_i renders
          rw [asks_found table o m t a ks path rule found, renders, if_pos rfl] at below
          have depth := opened_depth o ⟨.element m t a ks, path⟩ s
          have kept := opened_kept o ⟨.element m t a ks, path⟩ s
          refine nodes_paired table keeps o _ _ _ path [] [] ks _ middle content ?_ below .nil read
          rwa [depth, kept]
        · cases read
          exact .nil
      exact paired_join _ _ before (replace_paired o rule listed _ content output text middle last paired replaced)

theorem nodes_paired (table : RuleTable) (keeps : ∀ rule ∈ table.inOrder, KeepsCounters rule.replacement) (o : Options)
    (outer : List Open) (isBlock : Bool) (head : Head) (path : List Step) (before : List Marked) (output : Chars)
    (ks : List Marked) (s u : State) (written : Chars) (bare : BareAll o s.codeDepth s.preformattedDepth ks)
    (running : ∀ below ∈ visitsAll table o head path before ks, IsRunning table o below) (ahead : Paired output)
    (worked : nodes table o outer isBlock head path before output ks s = .ok written u) : Paired written := by
  cases ks with
  | nil =>
      cases worked
      exact ahead
  | cons n rest =>
      rw [visitsAll, List.forall_mem_append] at running
      rw [nodes] at worked
      obtain ⟨middle, v, first, later⟩ := (bind_ok_iff _ _ _ _ _).mp worked
      have here := node_paired table keeps o outer isBlock (Site.pathTo head path before rest n) output n s v middle
        bare.1 running.1 ahead first
      have same := node_keeps table keeps o outer isBlock (Site.pathTo head path before rest n) output n s middle v first
      have code : v.codeDepth = s.codeDepth := congrArg Counters.code same
      have kept : v.preformattedDepth = s.preformattedDepth := congrArg Counters.preformatted same
      refine nodes_paired table keeps o outer isBlock head path (n :: before) middle rest v u written ?_ running.2 here later
      rw [code, kept]
      exact bare.2

end

end Render

end Downmark
