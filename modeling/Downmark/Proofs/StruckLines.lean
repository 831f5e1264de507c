import Downmark.Proofs.HarmlessTrees
import Downmark.Proofs.LinkParagraphs
import Downmark.Proofs.ReadBack
import Downmark.Proofs.ResolvedReferences
import Downmark.Proofs.SplitText
import Downmark.Proofs.StruckTable
/-!
The tildes at the start of a paragraph of struck text. Main statement: its line opens a code fence just where the first
text of it is struck more than once and the line is indented by three spaces at most.
-/

set_option autoImplicit false

namespace Downmark

open Node Render Whitespace

section

variable {μ ν : Type}

-- What a paragraph of struck text is made of.
def Strikable : Node μ → Prop
  | .text _ _ => True
  | .comment _ _ => True
  | .element _ t _ _ => t = "span" ∨ t ∈ struckTags
  | .document _ _ => False

mutual

/-- How many elements strike the first text below a node, unless nothing but gaps is written of the node. -/
def strikeDepth : Node μ → Option Nat
  | .text _ data => if Glyph.ink data = [] then none else some 0
  | .comment _ _ => none
  | .document _ _ => none
  | .element m t a ks =>
    if isBlank (.element m t a ks) then none
    else (strikeDepths ks).map fun depth => if t ∈ struckTags then depth + 1 else depth

def strikeDepths : List (Node μ) → Option Nat
  | [] => none
  | n :: rest => (strikeDepth n).orElse fun _ => strikeDepths rest

end

theorem strikable_marks (f : μ → ν) (n : Node μ) : Strikable (n.mapMarks f) ↔ Strikable n := by
  cases n <;> rfl

mutual

theorem strike_depth_marks (f : μ → ν) (n : Node μ) : strikeDepth (n.mapMarks f) = strikeDepth n := by
  cases n with
  | text m data | comment m data | document m ks => rfl
  | element m t a ks =>
      have same := map_marks_solid f (.element m t a ks)
      rw [mapMarks] at same ⊢
      rw [strikeDepth, strikeDepth, element_blank _ rfl, element_blank _ rfl, same, strike_depths_marks f ks]

theorem strike_depths_marks (f : μ → ν) (ks : List (Node μ)) : strikeDepths (mapAllMarks f ks) = strikeDepths ks := by
  cases ks with
  | nil => rfl
  | cons n rest =>
      rw [mapAllMarks, strikeDepths, strikeDepths, strike_depth_marks f n, strike_depths_marks f rest]

end

-- Text that is written though nothing is to be seen of it is struck by no element: it would be blank.
theorem unseen_depth (ks : List (Node μ)) (unseen : ks.any isSolid = false) : (strikeDepths ks).getD 0 = 0 := by
  induction ks with
  | nil => rfl
  | cons n rest ih =>
      rw [List.any_cons, Bool.or_eq_false_iff] at unseen
      have later := ih unseen.2
      rw [strikeDepths]
      cases n with
      | text m data =>
          rw [strikeDepth]
          split
          · exact later
          · rfl
      | comment | document => exact later
      | element m t a ks =>
          rw [strikeDepth, element_blank _ rfl, unseen.1, Bool.not_false, if_pos rfl]
          exact later

end

/-! What is written -/

-- Gaps, and if there is more, a run of two tildes for each time that it is struck and then something else.
inductive TildeRun : Option Nat → Chars → Prop where
  | gaps (w : Chars) (all : ∀ c ∈ w, Text.isGap c) : TildeRun none w
  | run (before : Chars) (depth : Nat) (c : Char) (rest : Chars) (all : ∀ g ∈ before, Text.isGap g) (other : c ≠ '~')
      (solid : Text.isGap c = false) : TildeRun (some depth) (before ++ (List.replicate (2 * depth) '~' ++ c :: rest))

theorem tilde_run_append (first later : Option Nat) (v w : Chars) (begins : TildeRun first v)
    (next : TildeRun later w) :
    TildeRun (first.orElse fun _ => later) (v ++ w) := by
  cases begins with
  | gaps _ all =>
      cases next with
      | gaps _ others =>
          refine .gaps _ fun c member => ?_
          exact (List.mem_append.mp member).elim (all c) (others c)
      | run before depth c rest others other solid =>
          rw [← List.append_assoc]
          refine .run _ depth c rest (fun g member => ?_) other solid
          exact (List.mem_append.mp member).elim (all g) (others g)
  | run before depth c rest all other solid =>
      simpa using TildeRun.run before depth c (rest ++ w) all other solid

theorem tilde_run_around (depth : Option Nat) (leading inner trailing : Chars) (first : ∀ c ∈ leading, Text.isGap c)
    (last : ∀ c ∈ trailing, Text.isGap c) (begins : TildeRun depth inner) :
    TildeRun depth (leading ++ inner ++ trailing) := by
  have whole := tilde_run_append _ _ _ _ (tilde_run_append _ _ _ _ (.gaps leading first) begins) (.gaps trailing last)
  cases depth <;> exact whole

theorem tilde_run_seen (depth : Option Nat) (w : Chars) (begins : TildeRun depth w) (seen : Seen w) :
    ∃ before k c rest, depth = some k ∧ w = before ++ (List.replicate (2 * k) '~' ++ c :: rest) ∧
      (∀ g ∈ before, Text.isGap g) ∧ c ≠ '~' ∧ Text.isGap c = false := by
  cases begins with
  | gaps _ all =>
      obtain ⟨c, member, solid⟩ := seen
      have gap := all c member
      rw [solid_not_gap c solid] at gap
      cases gap
  | run before k c rest all other solid => exact ⟨before, k, c, rest, rfl, rfl, all, other, solid⟩

theorem spelled_tilde_run (start : Bool) (s w : Chars) (spelled : Escape.Spelled Escape.inlineSpecial start s w)
    (solid : ¬ Gaps s) : TildeRun (some 0) w := by
  induction spelled with
  | nil => exact absurd rfl solid
  | plain start c s w common _ _ ih =>
      by_cases gap : Text.isGap c
      · have rest : ¬ Gaps s := fun gaps => solid (by simpa [Gaps, gapless, gap] using gaps)
        exact tilde_run_append none _ [c] w (.gaps _ (by simpa using gap)) (ih rest)
      · have other : c ≠ '~' := by
          rintro rfl
          exact common (by decide)
        exact .run [] 0 c w (by simp) other (by simpa using gap)
  | slashed start c s w => exact .run [] 0 '\\' (c :: w) (by simp) (by decide) (by decide)

theorem core_tilde_run (before run rest : Chars) (c : Char) (all : ∀ g ∈ before, Text.isGap g)
    (tildes : ∀ g ∈ run, g = '~') (solid : Text.isGap c = false) :
    ∃ rest', (Whitespace.flanking (before ++ (run ++ c :: rest))).2.1 = run ++ c :: rest' := by
  refine ⟨Text.trimEnd Text.isGap rest, ?_⟩
  have first : (run ++ c :: rest).head?.any Text.isGap = false := by
    cases run with
    | nil => simpa using solid
    | cons g run =>
        obtain rfl := tildes g List.mem_cons_self
        rfl
  have kept : Text.trimStart Text.isGap (before ++ (run ++ c :: rest)) = run ++ c :: rest := by
    rw [Text.trim_start_append, Text.trim_start_all _ _ all, if_pos List.isEmpty_nil]
    exact Text.drop_none _ _ first
  rw [Whitespace.flanking, kept, Reference.trim_behind _ _ _ _ solid]

-- What is written of nodes: that nothing but spaces is written for white space is told along with the tildes.
structure StruckAs (depth : Option Nat) (solid : Bool) (w : Chars) : Prop where
  spaced : Spaced w
  begins : TildeRun depth w
  seen : solid = true → Seen w

theorem struck_append (first later : Option Nat) (here there : Bool) (v w : Chars) (struck : StruckAs first here v)
    (next : StruckAs later there w) : StruckAs (first.orElse fun _ => later) (here || there) (v ++ w) where
  spaced := spaced_append _ _ struck.spaced next.spaced
  begins := tilde_run_append _ _ _ _ struck.begins next.begins
  seen appears := by
    rcases (Bool.or_eq_true _ _).mp appears with before | after
    · exact seen_part v _ (fun c member _ => List.mem_append_left w member) (struck.seen before)
    · exact seen_part w _ (fun c member _ => List.mem_append_right v member) (next.seen after)

section

variable (o : Options) (s : State)

theorem text_struck (uncoded : s.inCode = false) (flowing : s.inPreformatted = false) (opened : List Open) (m : Mark)
    (data : Chars) (regapped : Regapped (shown m data) data) :
    StruckAs (strikeDepth (.text m data : Marked)) (isSolid (.text m data : Marked))
      (textOutput s o opened m data) := by
  have spelled := text_spelled o s uncoded flowing opened m data
  have common (c : Char) (listed : c ∈ Escape.inlineSpecial) : Text.isGap c = false := by
    by_contra gap
    exact (Escape.gap_plain c [] (by simpa using gap)).1 listed
  have same := regapped_gapless _ _ regapped
  refine ⟨Reference.muted_spaced _ (text_muted o s uncoded flowing opened m data regapped), ?_, fun solid => ?_⟩
  · rw [strikeDepth]
    split
    · rename_i none
      refine .gaps _ ((gaps_iff _).mp (spelled_gaps _ common true _ _ spelled ?_))
      rw [Gaps, same, none]
    · rename_i some
      refine spelled_tilde_run true _ _ spelled fun gaps => some ?_
      rw [← same, gaps]
  · refine Render.text_seen o s uncoded flowing opened m data regapped ((seen_iff _).mpr ?_)
    rwa [text_solid, Bool.not_eq_true'] at solid

def struckCore (blank : Bool) (t : String) (core : Chars) : Chars :=
  if blank then []
  else if t ∈ struckTags ∧ Text.isBlankText core = false then '~' :: '~' :: core ++ ['~', '~']
  else core

theorem strikable_plain (t : String) (a : Attrs) (strikable : t = "span" ∨ t ∈ struckTags) :
    isBlockTag t = false ∧ staysBlankTag t = false ∧ t ≠ "code" ∧ (t ∉ struckTags → Plain t a) := by
  have all : ∀ t ∈ "span" :: struckTags, isBlockTag t = false ∧ staysBlankTag t = false ∧ t ≠ "code" ∧
      isVoidTag t = false ∧ t ∉ claimedTags ∧ t ≠ "a" := by decide
  obtain ⟨level, blank, other, filled, unclaimed, anchor⟩ := all t (by simpa using strikable)
  exact ⟨level, blank, other, fun _ => ⟨level, filled, unclaimed, fun same => absurd same anchor⟩⟩

theorem strikable_found (m : Mark) (t : String) (a : Attrs) (ks : List Marked) (path : List Step)
    (strikable : t = "span" ∨ t ∈ struckTags) : ∃ rule, rule.rendersChildren = true ∧
      struckTable.find ⟨.element m t a ks, path⟩ o m.blank = .ok rule ∧
      ∀ core, rule.replacement core ⟨.element m t a ks, path⟩ o s = .ok (struckCore m.blank t core) s := by
  obtain ⟨level, -, -, plain⟩ := strikable_plain t a strikable
  have tag : (⟨.element m t a ks, path⟩ : Site).tag = t := rfl
  rw [struck_found, tag]
  by_cases struck : m.blank = false ∧ t ∈ struckTags
  · refine ⟨Gfm.strikethroughRule, rfl, if_pos (by simpa using struck), fun core => ?_⟩
    change EStateM.Result.ok (if Text.isBlankText core then core else '~' :: '~' :: core ++ ['~', '~']) s = _
    rw [struckCore, struck.1]
    cases Text.isBlankText core <;> simp [struck.2]
  · have found := inline_found o m t a ks path fun solid => plain fun listed => struck ⟨solid, listed⟩
    refine ⟨_, ?_, (if_neg (by simpa using struck)).trans found, fun core => ?_⟩
    · cases m.blank <;> rfl
    · rw [inline_replacement o s m t a ks path level, struckCore]
      cases blank : m.blank with
      | true => rfl
      | false => simp [show t ∉ struckTags from fun listed => struck ⟨blank, listed⟩]

theorem replace_gapped (rule : Rule) (site : Site) (level : site.node.isBlock = false)
    (prose : (o.preformattedCode && site.isCode) = false) (content preceding inner : Chars)
    (made : rule.replacement (flanking content).2.1 site o s = .ok inner s) :
    ∃ leading trailing, (∀ c ∈ leading, Text.isGap c) ∧ (∀ c ∈ trailing, Text.isGap c) ∧
      (∀ c ∈ leading ++ trailing, c ∈ content) ∧
      replace rule site o content preceding s = .ok (leading ++ inner ++ trailing) s := by
  have whole := flanking_whole content
  obtain ⟨before, after⟩ := flanking_gaps content
  refine ⟨_, _, ?_, ?_, fun c member => ?_, replace_inner rule site o level prose content preceding inner s s made⟩
  · split
    · simp
    · exact before
  · split
    · simp
    · exact after
  · rw [← whole]
    rcases List.mem_append.mp member with first | last
    · split at first
      · cases first
      · simp [first]
    · split at last
      · cases last
      · simp [last]

end

-- What is struck is seen, so the core of an element that is not blank begins with the tildes of what is inside of it.
theorem core_struck (m : Mark) (t : String) (a : Attrs) (ks : List Marked) (strikable : t = "span" ∨ t ∈ struckTags)
    (solid : isSolid (.element m t a ks) = true) (content : Chars)
    (struck : StruckAs (strikeDepths ks) (ks.any isSolid) content) :
    StruckAs (strikeDepth (.element m t a ks)) true (struckCore false t (flanking content).2.1) := by
  have blank : isBlank (.element m t a ks) = false := by rw [element_blank _ rfl, solid]; rfl
  have inside : ks.any isSolid = true := by
    rwa [element_solid, (strikable_plain t a strikable).2.1, Bool.false_or] at solid
  have seen := struck.seen inside
  have spaced : Spaced (flanking content).2.1 := fun c member => struck.spaced c (by
    rw [← flanking_whole content]
    simp [member])
  have core := flanking_seen content seen
  obtain ⟨before, k, c, rest, depth, rfl, all, other, gapless⟩ := tilde_run_seen _ content struck.begins seen
  obtain ⟨rest', shape⟩ := core_tilde_run before (List.replicate (2 * k) '~') rest c all
    (fun g => List.eq_of_mem_replicate) gapless
  rw [shape] at spaced core ⊢
  have visible : Text.isBlankText (List.replicate (2 * k) '~' ++ c :: rest') = false := (seen_iff _).mp core
  rw [strikeDepth, blank, if_neg Bool.false_ne_true, depth, Option.map_some, struckCore, visible,
    if_neg Bool.false_ne_true]
  by_cases listed : t ∈ struckTags
  · rw [if_pos listed, if_pos ⟨listed, rfl⟩]
    have more := TildeRun.run [] (k + 1) c (rest' ++ ['~', '~']) (by simp) other gapless
    refine ⟨?_, by simpa [Nat.mul_succ, List.replicate_succ] using more, fun _ => ?_⟩
    · have tildes : Spaced ['~', '~'] := by simp [Spaced, isCollapsible]
      exact spaced_append _ _ (spaced_append _ _ tildes spaced) tildes
    · exact ⟨'~', by simp, rfl⟩
  · rw [if_neg listed, if_neg fun both => listed both.1]
    exact ⟨spaced, .run [] k c rest' (by simp) other gapless, fun _ => core⟩

theorem element_struck (m : Mark) (t : String) (a : Attrs) (ks : List Marked)
    (strikable : t = "span" ∨ t ∈ struckTags) (flagged : m.blank = !isSolid (.element m t a ks))
    (content leading trailing : Chars) (struck : StruckAs (strikeDepths ks) (ks.any isSolid) content)
    (first : ∀ c ∈ leading, Text.isGap c) (last : ∀ c ∈ trailing, Text.isGap c)
    (part : ∀ c ∈ leading ++ trailing, c ∈ content) :
    StruckAs (strikeDepth (.element m t a ks)) (isSolid (.element m t a ks))
      (leading ++ struckCore m.blank t (flanking content).2.1 ++ trailing) := by
  have before : Spaced leading := fun c member => struck.spaced c (part c (by simp [member]))
  have after : Spaced trailing := fun c member => struck.spaced c (part c (by simp [member]))
  rw [flagged]
  cases solid : isSolid (.element m t a ks) with
  | false =>
      have none : strikeDepth (.element m t a ks) = none := by
        rw [strikeDepth, element_blank _ rfl, solid, Bool.not_false, if_pos rfl]
      rw [none]
      exact ⟨spaced_append _ _ (spaced_append _ _ before (by simp [struckCore, Spaced])) after,
        tilde_run_around _ _ _ _ first last (.gaps _ (by simp [struckCore])), nofun⟩
  | true =>
      have core := core_struck m t a ks strikable solid content struck
      refine ⟨spaced_append _ _ (spaced_append _ _ before core.spaced) after,
        tilde_run_around _ _ _ _ first last core.begins, fun _ => ?_⟩
      exact seen_part _ _ (fun c member _ => by simp [show c ∈ struckCore false t _ from member]) (core.seen rfl)

mutual

theorem node_struck (o : Options) (s : State) (uncoded : s.inCode = false) (flowing : s.inPreformatted = false)
    (outer : List Open) (isBlock : Bool) (path : List Step) (output : Chars) (n : Marked)
    (strikable : ∀ below ∈ n :: n.descendants, Strikable below) (noted : Noted [n]) (flagged : Flagged n)
    (prose : ∀ step ∈ path, step.head.tag ≠ "code") (spaced : Spaced output) :
    ∃ w, node struckTable o outer isBlock path output n s = .ok (output ++ w) s ∧
      StruckAs (strikeDepth n) n.isSolid w := by
  have joined (w : Chars) (clean : Spaced w) : join output w = output ++ w :=
    join_free output w (spaced_newline _ spaced) (spaced_newline _ clean)
  cases n with
  | text m data =>
      have struck := text_struck o s uncoded flowing (⟨output, isBlock⟩ :: outer) m data ((noted_text m data).mp noted)
      refine ⟨_, ?_, struck⟩
      rw [← joined _ struck.spaced]
      rfl
  | comment m data => exact ⟨[], by rw [List.append_nil]; rfl, by simp [Spaced], .gaps [] (by simp), nofun⟩
  | document m ks => exact (strikable _ List.mem_cons_self).elim
  | element m t a ks =>
      have named : t = "span" ∨ t ∈ struckTags := strikable _ List.mem_cons_self
      obtain ⟨level, -, other, -⟩ := strikable_plain t a named
      obtain ⟨content, rendered, inside⟩ := nodes_struck o s uncoded flowing (⟨output, isBlock⟩ :: outer) (isBlockTag t)
        (.element m t a) path [] [] ks (fun below member => strikable below (List.mem_cons_of_mem _ member))
        ((noted_element m t a ks).mp noted) flagged.2 other prose (by simp [Spaced])
      obtain ⟨rule, renders, found, makes⟩ := strikable_found o s m t a ks path named
      obtain ⟨leading, trailing, first, last, part, replaced⟩ := replace_gapped o s rule ⟨.element m t a ks, path⟩ level
        (prose_site o (.element m t a ks) path (by simpa [isNamed] using other) prose) content output _ (makes _)
      have struck := element_struck m t a ks named flagged.1 content leading trailing inside first last part
      have passed := inline_passed o m t a ks path s level
      rw [passed.coded other] at passed
      refine ⟨_, ?_, struck⟩
      rw [← joined _ struck.spaced]
      exact node_replaced struckTable o outer isBlock path output m t a ks rule content _ found renders passed.entered
        rendered replaced passed.left

theorem nodes_struck (o : Options) (s : State) (uncoded : s.inCode = false) (flowing : s.inPreformatted = false)
    (outer : List Open) (isBlock : Bool) (head : Head) (path : List Step) (before : List Marked) (output : Chars)
    (ks : List Marked) (strikable : ∀ n ∈ forest ks, Strikable n) (noted : Noted ks) (flagged : FlaggedAll ks)
    (other : head.tag ≠ "code") (prose : ∀ step ∈ path, step.head.tag ≠ "code") (spaced : Spaced output) :
    ∃ w, nodes struckTable o outer isBlock head path before output ks s = .ok (output ++ w) s ∧
      StruckAs (strikeDepths ks) (ks.any isSolid) w := by
  cases ks with
  | nil => exact ⟨[], by rw [List.append_nil]; rfl, by simp [Spaced], .gaps [] (by simp), nofun⟩
  | cons n rest =>
      obtain ⟨first, others⟩ := (noted_cons n rest).mp noted
      have around := path_prose head path before rest n other prose
      obtain ⟨v, rendered, here⟩ := node_struck o s uncoded flowing outer isBlock (Site.pathTo head path before rest n)
        output n (fun below member => strikable below (List.mem_append_left (forest rest) member)) first flagged.1
        around spaced
      obtain ⟨w, finished, there⟩ := nodes_struck o s uncoded flowing outer isBlock head path (n :: before)
        (output ++ v) rest (fun below member => strikable below (List.mem_append_right (n :: n.descendants) member))
        others flagged.2 other prose (spaced_append _ _ spaced here.spaced)
      refine ⟨v ++ w, ?_, struck_append _ _ _ _ v w here there⟩
      rw [nodes, bind_of_ok _ _ s s _ rendered, finished, List.append_assoc]

end

/-! The line -/

/-- How many tildes a line begins with behind its indentation. -/
def tildesOf (line : Chars) : Nat := ((line.dropWhile (· == ' ')).takeWhile (· == '~')).length

/-- Whether a line opens a code fence of tildes: it begins with three or more of them, behind three spaces at most. -/
def TildeFence (line : Chars) : Prop := (line.takeWhile (· == ' ')).length ≤ 3 ∧ 3 ≤ tildesOf line

theorem run_tildes (before : Chars) (k : Nat) (rest : Chars) (spaces : ∀ c ∈ before, c = ' ')
    (other : rest.head?.any (· == '~') = false) (solid : k = 0 → rest.head?.any (· == ' ') = false) :
    tildesOf (before ++ (List.replicate k '~' ++ rest)) = k := by
  have all : ∀ c ∈ before, (c == ' ') = true := fun c member => by simp [spaces c member]
  have stop : (List.replicate k '~' ++ rest).dropWhile (· == ' ') = List.replicate k '~' ++ rest := by
    refine Text.drop_none _ _ ?_
    cases k with
    | zero => exact solid rfl
    | succ k => rfl
  have run : (List.replicate k '~' ++ rest).takeWhile (· == '~') = List.replicate k '~' :=
    Text.take_run _ _ _ (fun c member => by simp [List.eq_of_mem_replicate member]) other
  rw [tildesOf, List.dropWhile_append_of_pos all, stop, run, List.length_replicate]

-- Trimming may take all that stands behind the tildes, but never the tildes.
theorem trimmed_tildes (before : Chars) (k : Nat) (c : Char) (rest : Chars) (spaces : ∀ c ∈ before, c = ' ')
    (other : c ≠ '~') (gapless : Text.isGap c = false)
    (seen : Seen (before ++ (List.replicate k '~' ++ c :: rest))) :
    tildesOf (Text.trimEnd Text.isBlank (before ++ (List.replicate k '~' ++ c :: rest))) = k := by
  obtain ⟨run, whole, blank⟩ := Text.trim_end_run Text.isBlank (c :: rest)
  rw [← List.append_assoc, Text.trim_end_append]
  cases kept : Text.trimEnd Text.isBlank (c :: rest) with
  | nil =>
      have bare := Text.trim_end_empty _ _ kept
      obtain ⟨k, rfl⟩ : ∃ n, k = n + 1 := by
        refine Nat.exists_eq_succ_of_ne_zero fun none => ?_
        subst none
        obtain ⟨d, member, solid⟩ := seen
        rcases List.mem_append.mp member with space | behind
        · rw [spaces d space] at solid
          cases solid
        · rw [bare d (by simpa using behind)] at solid
          cases solid
      have last : (before ++ List.replicate (k + 1) '~').getLast?.any Text.isBlank = false := by
        rw [List.replicate_succ', ← List.append_assoc, List.getLast?_concat]
        rfl
      rw [if_pos List.isEmpty_nil, Text.trim_end_none _ _ last]
      simpa using run_tildes before (k + 1) [] spaces rfl nofun
  | cons d tail =>
      rw [kept] at whole
      obtain rfl : c = d := (List.cons.inj whole).1
      have space : c ≠ ' ' := by
        rintro rfl
        cases gapless
      rw [if_neg (by simp), List.append_assoc]
      exact run_tildes before k (c :: tail) spaces (by simpa using other) fun _ => by simpa using space

theorem struck_paragraph (o : Options) (s : State) (uncoded : s.inCode = false) (flowing : s.inPreformatted = false)
    (m : Mark) (a : Attrs) (ks : List Marked) (strikable : ∀ n ∈ forest ks, Strikable n) (noted : Noted ks)
    (flagged : Flagged (.element m "p" a ks)) : ∃ out, node struckTable o [] true [] [] (.element m "p" a ks) s =
      .ok out s ∧ Spaced (trimmed out) ∧ tildesOf (trimmed out) = 2 * (strikeDepths ks).getD 0 := by
  obtain ⟨content, rendered, struck⟩ := nodes_struck o s uncoded flowing [⟨[], true⟩] true (.element m "p" a) [] [] []
    ks strikable noted flagged.2 (by simp [Head.tag]) (by simp) (by simp [Spaced])
  have found : struckTable.find ⟨.element m "p" a ks, []⟩ o m.blank =
      .ok (if m.blank then Rule.blank else paragraphRule) := by
    rw [struck_found]
    cases m.blank <;> rfl
  have written : node struckTable o [] true [] [] (.element m "p" a ks) s =
      .ok (join [] (if m.blank then ['\n', '\n'] else Block.apart content)) s := by
    refine container_written struckTable o [] true [] [] m "p" a ks _ s s content _ (by decide) found ?_ rfl rendered ?_
      rfl
    · cases m.blank <;> rfl
    · cases m.blank <;> rfl
  refine ⟨_, written, ?_⟩
  have solid : isSolid (.element m "p" a ks) = ks.any isSolid := by
    rw [element_solid, show staysBlankTag "p" = false by decide, Bool.false_or]
  rw [flagged.1, solid]
  cases inside : ks.any isSolid with
  | false =>
      have empty : trimmed (join [] ['\n', '\n']) = [] := rfl
      rw [unseen_depth ks inside, Bool.not_false, if_pos rfl, empty]
      exact ⟨by simp [Spaced], rfl⟩
  | true =>
      obtain ⟨before, k, c, rest, depth, rfl, gaps, other, gapless⟩ :=
        tilde_run_seen _ content struck.begins (struck.seen inside)
      have spaces (c : Char) (member : c ∈ before) : c = ' ' :=
        struck.spaced c (List.mem_append_left _ member) (gap_collapsible c (gaps c member))
      rw [Bool.not_true, if_neg Bool.false_ne_true, trimmed_paragraph _ struck.spaced, depth]
      exact ⟨trim_end_spaced _ _ struck.spaced,
        trimmed_tildes before (2 * k) c rest spaces other gapless (struck.seen inside)⟩

/-- The output begins with two tildes for each element that strikes its first text, and opens a fence of code just where
these are two elements or more and there are not more than three spaces before them. -/
theorem tilde_fence_iff (w : Workbench) (applied : Gfm.strikethroughPlugin {} = .ok () w) (o : Options) (a : Attrs)
    (ks : List Tree) (strikable : ∀ n ∈ forest ks, Strikable n) :
    ∃ out u, site w.table o (Site.ofTree (.element () "p" a ks)) {} = .ok out u ∧
      tildesOf out = 2 * (strikeDepths ks).getD 0 ∧
      ((∃ line ∈ Text.lines out, TildeFence line) ↔
        (out.takeWhile (· == ' ')).length ≤ 3 ∧ 2 ≤ (strikeDepths ks).getD 0) := by
  obtain ⟨m, below, prepared, bared⟩ := bare_element_shape _ "p" a ks
    ((prepare_bare o (unmark (.element () "p" a ks))).trans (bare_marked _ _))
  have noted := open_noted o (.element () "p" a ks)
  have flagged := prepared_flags o (unmark (.element () "p" a ks))
  rw [prepared] at noted flagged
  have passed : ∀ n ∈ forest below, Strikable n := by
    intro n member
    rw [← strikable_marks fun _ => ()]
    refine strikable _ ?_
    rw [← bared, bareAll, forest_marks]
    exact List.mem_map_of_mem member
  have depth : strikeDepths below = strikeDepths ks := by rw [← bared, bareAll, strike_depths_marks]
  let started : State := { log := [.renderStarted "Element" struckTable.count] }
  obtain ⟨out, rendered, spaced, tildes⟩ := struck_paragraph o started rfl rfl m a below passed
    ((noted_element m "p" a below).mp noted) flagged
  have single := Text.lines_free _ (spaced_newline _ spaced)
  rw [strikethrough_applied w applied]
  refine ⟨trimmed out, started, paragraph_site o a ks m below started out prepared rfl rendered, depth ▸ tildes, ?_⟩
  have fence : TildeFence (trimmed out) ↔
      ((trimmed out).takeWhile (· == ' ')).length ≤ 3 ∧ 2 ≤ (strikeDepths ks).getD 0 := by
    rw [TildeFence, tildes, depth]
    exact and_congr_right fun _ => by omega
  rw [← fence, single]
  simp

def struckTwice : List Tree :=
  [.element () "span" [] [.text () ['\u00a0', ' ']],
    .element () "del" [] [.element () "s" [] [.text () ['x']], .text () ['y']]]

theorem struck_twice_fence : (∀ n ∈ forest struckTwice, Strikable n) ∧ ∃ w u,
    Gfm.strikethroughPlugin {} = .ok () w ∧ site w.table {} (Site.ofTree (.element () "p" [] struckTwice)) {} =
      .ok [' ', '~', '~', '~', '~', 'x', '~', '~', 'y', '~', '~'] u ∧
    ∃ line ∈ Text.lines [' ', '~', '~', '~', '~', 'x', '~', '~', 'y', '~', '~'], TildeFence line := by
  have strikable : ∀ n ∈ forest struckTwice, Strikable n := by
    simp [struckTwice, forest, descendants, Strikable, struckTags]
  have applied : Gfm.strikethroughPlugin {} = .ok () _ := rfl
  obtain ⟨out, u, rendered, -, fence⟩ := tilde_fence_iff _ applied {} [] struckTwice strikable
  have evaluated : (answer (site struckTable {} (Site.ofTree (.element () "p" [] struckTwice))) {}).toOption =
      some [' ', '~', '~', '~', '~', 'x', '~', '~', 'y', '~', '~'] := by decide +kernel
  rw [answer, ← strikethrough_applied _ applied, rendered] at evaluated
  obtain rfl := Option.some.inj evaluated
  exact ⟨strikable, _, u, applied, rendered, fence.mpr (by decide)⟩

theorem nested_strike_opens_fence : ¬ ∀ (w : Workbench), Gfm.strikethroughPlugin {} = .ok () w →
    ∀ (o : Options) (a : Attrs) (ks : List Tree), (∀ n ∈ forest ks, Strikable n) →
    ∃ out u, site w.table o (Site.ofTree (.element () "p" a ks)) {} = .ok out u ∧
      ∀ line ∈ Text.lines out, ¬ TildeFence line := by
  intro claim
  have strikable : ∀ n ∈ forest [.element () "del" [] [.element () "s" [] [.text () ['x']]]], Strikable n := by
    simp [forest, descendants, Strikable, struckTags]
  obtain ⟨out, u, rendered, closed⟩ := claim _ rfl {} [] _ strikable
  have evaluated : site struckTable {}
      (Site.ofTree (.element () "p" [] [.element () "del" [] [.element () "s" [] [.text () ['x']]]])) {} =
      .ok ['~', '~', '~', '~', 'x', '~', '~', '~', '~'] _ := rfl
  obtain ⟨rfl, -⟩ := EStateM.Result.ok.inj (rendered.symm.trans evaluated)
  exact closed _ List.mem_cons_self (by unfold TildeFence; decide)

end Downmark
