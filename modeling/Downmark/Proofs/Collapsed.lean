import Mathlib.Data.List.TakeWhile
import Downmark.Proofs.Squeezed
/-!
Collapsing white space, told without going back and forth. The texts between two borders are one text
that was cut by tags: squeezed as one, with no space at its ends, it is what the texts are together
after white space is collapsed. Main statement: this holds of every run of every tree.
-/

set_option autoImplicit false

namespace Downmark.Whitespace

-- What is met below a root, with texts as `read` shows them. Void elements and what is kept as it is
-- have no inside, and are met once.
mutual

def outline (read : Mark → Chars → Chars) (keep : Bool) : Marked → List Event
  | .text m data => [.text (read m data)]
  | .comment _ _ => []
  | .document _ _ => []
  | .element _ t _ ks =>
      if isKept keep t then [if isBlockTag t then .border else .solid]
      else if isBlockTag t then .border :: (outlines read keep ks ++ [.border])
      else if t == "br" then [.border]
      else if isVoidTag t then [.solid]
      else .tag :: (outlines read keep ks ++ [.tag])

def outlines (read : Mark → Chars → Chars) (keep : Bool) : List Marked → List Event
  | [] => []
  | n :: rest => outline read keep n ++ outlines read keep rest

end

def raw (_ : Mark) (data : Chars) : Chars := data

-- A text that nothing is noted on reads as whatever `missing` gives.
def noted (missing : Chars → Chars) (m : Mark) (data : Chars) : Chars := m.shown.getD (missing data)

def Apart : List Event → Prop
  | .text _ :: .text _ :: _ => False
  | _ :: rest => Apart rest
  | [] => True

def spell (symbol : Char) : List Event → Chars
  | [] => []
  | .text s :: rest => s ++ spell symbol rest
  | .solid :: rest => symbol :: spell symbol rest
  | _ :: rest => spell symbol rest

def settled (s : Chars) : Chars := Text.trim (· == ' ') (squeeze s)

def runs (found : List Event) : List (List Event) := found.splitOn .border

-- What going from left to right comes to: each text is squeezed as a part of its run.
def sweep (inRun : Bool) : List Event → List Event
  | [] => []
  | .text s :: rest => .text (squeezeFrom inRun s) :: sweep (inRunAfter inRun s) rest
  | .border :: rest => .border :: sweep true rest
  | .solid :: rest => .solid :: sweep false rest
  | .tag :: rest => .tag :: sweep inRun rest

-- A space is still kept after a text only until the next tag is met.
def Tracks (inRun : Bool) (flow : Flow) : Prop := inRun = flow.ending.getD (!flow.keepsSpace)

def Fresh (flow : Flow) : Prop := flow.ending.isSome → flow.keepsSpace = false

theorem fresh_drops (inRun : Bool) (flow : Flow) (tracks : Tracks inRun flow) (fresh : Fresh flow) :
    flow.dropsSpace = inRun := by
  obtain ⟨ending, keepsSpace⟩ := flow
  cases ending with
  | none => simpa [Flow.dropsSpace, Tracks] using tracks.symm
  | some b =>
      have dropped : keepsSpace = false := fresh rfl
      simpa [Flow.dropsSpace, Tracks, dropped] using tracks.symm

theorem tracks_text (inRun : Bool) (flow : Flow) (s : Chars) (tracks : Tracks inRun flow) :
    Tracks (inRunAfter inRun s) (flow.after (squeezeFrom inRun s)) := by
  unfold Flow.after
  split
  · rename_i empty
    rwa [squeeze_from_empty inRun s (List.getLast?_eq_none_iff.mp empty)]
  · rename_i c last
    exact squeeze_from_last inRun s c last

theorem tracks_tag (inRun : Bool) (flow : Flow) (tracks : Tracks inRun flow) :
    let next := if flow.ending.isSome then { flow with keepsSpace := false } else flow
    Tracks inRun next ∧ Fresh next := by
  obtain ⟨ending, keepsSpace⟩ := flow
  cases ending with
  | none => exact ⟨tracks, by simp [Fresh]⟩
  | some b => exact ⟨tracks, fun _ => rfl⟩

def StartsWithText : List Event → Prop
  | .text _ :: _ => True
  | _ => False

theorem apart_tail (e : Event) (rest : List Event) (apart : Apart (e :: rest)) : Apart rest := by
  cases e with
  | text s =>
      cases rest with
      | nil => trivial
      | cons f rest => cases f <;> first | exact apart | exact apart.elim
  | border | solid | tag => exact apart

theorem apart_text (s : Chars) (rest : List Event) (apart : Apart (.text s :: rest)) : ¬ StartsWithText rest := by
  cases rest with
  | nil => exact id
  | cons f rest => cases f <;> first | exact id | exact apart.elim

theorem squeezed_from (inRun : Bool) (flow : Flow) (s : Chars) (drops : flow.dropsSpace = inRun) :
    (if flow.dropsSpace then dropSpace (squeeze s) else squeeze s) = squeezeFrom inRun s := by
  rw [drops]
  cases inRun with
  | false => rfl
  | true => exact squeeze_from_drop s

theorem forward_sweeps (inRun : Bool) (flow : Flow) (found : List Event) (tracks : Tracks inRun flow)
    (fresh : StartsWithText found → Fresh flow) (apart : Apart found) : forward flow found = sweep inRun found := by
  induction found generalizing inRun flow with
  | nil => rfl
  | cons e rest ih =>
      have later := apart_tail e rest apart
      cases e with
      | text s =>
          have drops := fresh_drops inRun flow tracks (fresh trivial)
          have written := squeezed_from inRun flow s drops
          have next := ih _ _ (tracks_text inRun flow s tracks)
            (fun text => absurd text (apart_text s rest apart)) later
          simp only [forward, written, sweep, next]
      | border => simp only [forward, sweep, ih true {} rfl (fun _ => by simp [Fresh]) later]
      | solid =>
          simp only [forward, sweep, ih false { keepsSpace := true } rfl (fun _ => by simp [Fresh]) later]
      | tag =>
          obtain ⟨same, renewed⟩ := tracks_tag inRun flow tracks
          simp only [forward, sweep, ih inRun _ same (fun _ => renewed) later]

-- Without solid content, a space is never kept for what stands before it.
theorem forward_sweeps_unbroken (inRun : Bool) (flow : Flow) (found : List Event) (tracks : Tracks inRun flow)
    (dropping : flow.keepsSpace = false) (unbroken : Event.solid ∉ found) : forward flow found = sweep inRun found := by
  induction found generalizing inRun flow with
  | nil => rfl
  | cons e rest ih =>
      simp only [List.mem_cons, not_or] at unbroken
      cases e with
      | text s =>
          have drops := fresh_drops inRun flow tracks (fun _ => dropping)
          have written := squeezed_from inRun flow s drops
          have still : (flow.after (squeezeFrom inRun s)).keepsSpace = false := by
            unfold Flow.after
            split
            · exact dropping
            · exact dropping
          simp only [forward, written, sweep, ih _ _ (tracks_text inRun flow s tracks) still unbroken.2]
      | border => simp only [forward, sweep, ih true {} rfl rfl unbroken.2]
      | solid => exact absurd rfl unbroken.1
      | tag =>
          obtain ⟨same, -⟩ := tracks_tag inRun flow tracks
          have still : (if flow.ending.isSome then { flow with keepsSpace := false } else flow).keepsSpace = false := by
            split
            · rfl
            · exact dropping
          simp only [forward, sweep, ih inRun _ same still unbroken.2]

def place : List Event → List Chars → List Event
  | [], _ => []
  | .text s :: rest, texts => .text (texts.headD s) :: place rest texts.tail
  | .border :: rest, texts => .border :: place rest texts
  | .solid :: rest, texts => .solid :: place rest texts
  | .tag :: rest, texts => .tag :: place rest texts

theorem trim_end_cons (p : Char → Bool) (c : Char) (s : Chars) (keeps : p c = false ∨ Text.trimEnd p s ≠ []) :
    Text.trimEnd p (c :: s) = c :: Text.trimEnd p s := by
  unfold Text.trimEnd at *
  rw [List.reverse_cons, List.dropWhile_append]
  by_cases gone : s.reverse.dropWhile p = []
  · have other : p c = false := by simpa [gone] using keeps
    simp [gone, other]
  · simp [gone]

theorem trim_end_tight (s t : Chars) (tight : Tight (s ++ t)) (some : t ≠ []) :
    Text.trimEnd (· == ' ') (s ++ t) = s ++ Text.trimEnd (· == ' ') t := by
  induction s with
  | nil => rfl
  | cons c s ih =>
      have rest := ih (tight_tail c _ tight)
      rw [List.cons_append, trim_end_cons, rest, List.cons_append]
      rw [rest]
      by_cases space : c = ' '
      · right
        intro gone
        obtain ⟨rfl, blank⟩ := List.append_eq_nil_iff.mp gone
        -- Here all of `t` are spaces, so its first one would stand right behind the space `c`.
        cases t with
        | nil => exact some rfl
        | cons d t =>
            have spaces : ∀ e ∈ d :: t, (e == ' ') = true := by
              rw [Text.trimEnd, List.reverse_eq_nil_iff, List.dropWhile_eq_nil_iff] at blank
              exact fun e member => blank e (List.mem_reverse.mpr member)
            have next : d = ' ' := by simpa using spaces d (List.mem_cons_self)
            exact tight [] t (by rw [space, next]; rfl)
      · exact .inl (by simpa using space)

def spelledRuns (symbol : Char) (found : List Event) : List Chars := (runs found).map (spell symbol)

theorem runs_border (rest : List Event) : runs (.border :: rest) = [] :: runs rest := by
  simp [runs, List.splitOn_eq_splitOnP, List.splitOnP_cons_eq_if_modifyHead]

theorem runs_other (e : Event) (rest : List Event) (inner : e ≠ .border) :
    runs (e :: rest) = (runs rest).modifyHead (e :: ·) := by
  simp [runs, List.splitOn_eq_splitOnP, List.splitOnP_cons_eq_if_modifyHead, inner]

theorem spelled_border (symbol : Char) (rest : List Event) :
    spelledRuns symbol (.border :: rest) = [] :: spelledRuns symbol rest := by
  rw [spelledRuns, runs_border]
  rfl

theorem spelled_other (symbol : Char) (e : Event) (rest : List Event) (inner : e ≠ .border) :
    spelledRuns symbol (e :: rest) = (spelledRuns symbol rest).modifyHead (spell symbol [e] ++ ·) := by
  rw [spelledRuns, runs_other e rest inner, spelledRuns]
  cases runs rest with
  | nil => rfl
  | cons first more => cases e <;> simp [spell]

theorem spelled_some (symbol : Char) (found : List Event) : ∃ line more, spelledRuns symbol found = line :: more := by
  apply List.exists_cons_of_ne_nil
  simp [spelledRuns, runs, List.splitOn_ne_nil]

def settleFrom (inRun : Bool) : List Chars → List Chars
  | [] => []
  | line :: more => Text.trimEnd (· == ' ') (squeezeFrom inRun line) :: more.map settled

theorem settle_from_border (lines : List Chars) : settleFrom true lines = lines.map settled := by
  cases lines with
  | nil => rfl
  | cons line more => rw [settleFrom, ← squeeze_from_trim]; rfl

-- A text that something of its run follows keeps its last space, which is the only one there, since what
-- follows begins with none.
theorem sweep_settles_text (symbol : Char) (inRun : Bool) (s : Chars) (rest : List Event) (line : Chars)
    (more : List Chars)
    (placed : spelledRuns symbol (place rest (backward (sweep (inRunAfter inRun s) rest)).2) =
      settleFrom (inRunAfter inRun s) (line :: more))
    (border : (backward (sweep (inRunAfter inRun s) rest)).1 =
      (squeezeFrom (inRunAfter inRun s) line).isEmpty) :
    spelledRuns symbol (place (.text s :: rest) (backward (sweep inRun (.text s :: rest))).2) =
        settleFrom inRun ((s ++ line) :: more) ∧
      (backward (sweep inRun (.text s :: rest))).1 = (squeezeFrom inRun (s ++ line)).isEmpty := by
  have squeezed := squeeze_from_append inRun s line
  have tight := squeeze_from_tight inRun (s ++ line)
  rw [squeezed] at tight
  generalize rightward : backward (sweep (inRunAfter inRun s) rest) = later at placed border
  obtain ⟨atBorder, texts⟩ := later
  simp only at placed border
  have placing (t : Chars) : spelledRuns symbol (place (.text s :: rest) (t :: texts)) =
      (t ++ Text.trimEnd (· == ' ') (squeezeFrom (inRunAfter inRun s) line)) :: more.map settled := by
    rw [place, spelled_other symbol _ _ (by simp), List.tail_cons, placed]
    simp [settleFrom, spell]
  by_cases nothing : squeezeFrom inRun s = []
  · have result : backward (sweep inRun (.text s :: rest)) = (atBorder, [] :: texts) := by
      simp [sweep, backward, rightward, nothing]
    rw [result, placing]
    exact ⟨by simp [settleFrom, squeezed, nothing], by simpa [squeezed, nothing] using border⟩
  · have result : backward (sweep inRun (.text s :: rest)) = (false, (if atBorder then
        Text.trimEnd (· == ' ') (squeezeFrom inRun s) else squeezeFrom inRun s) :: texts) := by
      simp [sweep, backward, rightward, nothing]
    rw [result, placing]
    refine ⟨?_, by simp [squeezed, nothing]⟩
    by_cases finished : squeezeFrom (inRunAfter inRun s) line = []
    · have last : atBorder = true := by simpa [finished] using border
      simp [last, finished, settleFrom, squeezed, Text.trimEnd]
    · have inner : atBorder = false := by simpa [List.isEmpty_eq_false_iff.mpr finished] using border
      simp [inner, settleFrom, squeezed, trim_end_tight _ _ tight finished]

-- A run is settled from its end. The flag tells whether anything is left of it.
theorem sweep_settles (symbol : Char) (solid : isCollapsible symbol = false) (inRun : Bool) (found : List Event) :
    spelledRuns symbol (place found (backward (sweep inRun found)).2) =
        settleFrom inRun (spelledRuns symbol found) ∧
      (backward (sweep inRun found)).1 =
        ((spelledRuns symbol found).head?.map (squeezeFrom inRun)).all List.isEmpty := by
  induction found generalizing inRun with
  | nil => exact ⟨rfl, rfl⟩
  | cons e rest ih =>
      obtain ⟨line, more, shape⟩ := spelled_some symbol rest
      cases e with
      | text s =>
          obtain ⟨placed, border⟩ := ih (inRunAfter inRun s)
          rw [shape] at placed border
          have spelled : spelledRuns symbol (.text s :: rest) = (s ++ line) :: more := by
            rw [spelled_other symbol _ rest (by simp), shape]
            simp [spell]
          rw [spelled]
          exact sweep_settles_text symbol inRun s rest line more placed border
      | border =>
          obtain ⟨placed, -⟩ := ih true
          rw [spelled_border]
          refine ⟨?_, rfl⟩
          rw [sweep, backward, place, spelled_border, placed, settle_from_border]
          rfl
      | solid =>
          obtain ⟨placed, -⟩ := ih false
          rw [shape] at placed
          rw [spelled_other symbol .solid rest (by simp), shape]
          refine ⟨?_, by simp [sweep, backward, spell, squeeze_from_solid inRun symbol _ solid]⟩
          have apart : (symbol == ' ') = false := by simpa using solid_no_space symbol solid
          have trimmed := trim_end_cons (· == ' ') symbol (squeezeFrom false line) (.inl apart)
          rw [sweep, backward, place, spelled_other symbol .solid _ (by simp), placed]
          simp [settleFrom, spell, squeeze_from_solid inRun symbol _ solid, trimmed]
      | tag =>
          obtain ⟨placed, border⟩ := ih inRun
          have same (found : List Event) : spelledRuns symbol (.tag :: found) = spelledRuns symbol found := by
            obtain ⟨first, others, parts⟩ := spelled_some symbol found
            rw [spelled_other symbol .tag found (by simp), parts]
            rfl
          rw [sweep, backward, place, same, same]
          exact ⟨placed, border⟩

def textCount : List Event → Nat
  | [] => 0
  | .text _ :: rest => textCount rest + 1
  | _ :: rest => textCount rest

theorem forward_count (flow : Flow) (found : List Event) : textCount (forward flow found) = textCount found := by
  induction found generalizing flow with
  | nil => rfl
  | cons e rest ih => cases e <;> simp only [forward, textCount, ih]

theorem backward_count (found : List Event) : (backward found).2.length = textCount found := by
  induction found with
  | nil => rfl
  | cons e rest ih =>
      cases e with
      | text s =>
          obtain ⟨t, whole, -⟩ := backward_text s rest
          rw [whole, List.length_cons, ih, textCount]
      | border | solid | tag => exact ih

theorem settle_count (found : List Event) : (settle found).length = textCount found := by
  rw [settle, backward_count, forward_count]

theorem place_append (a b : List Event) (texts more : List Chars) (enough : texts.length = textCount a) :
    place (a ++ b) (texts ++ more) = place a texts ++ place b more := by
  induction a generalizing texts with
  | nil =>
      obtain rfl := List.eq_nil_of_length_eq_zero enough
      rfl
  | cons e rest ih =>
      cases e with
      | text s =>
          cases texts with
          | nil => cases enough
          | cons t texts => simpa [place] using ih texts (by simpa [textCount] using enough)
      | border | solid | tag => exact congrArg (List.cons _) (ih texts enough)

theorem text_count_silent (e : Event) (rest : List Event) (silent : ∀ s, e ≠ .text s) :
    textCount (e :: rest) = textCount rest := by
  cases e with
  | text s => exact absurd rfl (silent s)
  | border | solid | tag => rfl

theorem text_count_append (a b : List Event) : textCount (a ++ b) = textCount a + textCount b := by
  induction a with
  | nil => simp [textCount]
  | cons e rest ih =>
      cases e with
      | text s =>
          rw [List.cons_append, textCount, textCount, ih]
          omega
      | border | solid | tag => exact ih

theorem place_silent (e : Event) (rest : List Event) (texts : List Chars) (silent : ∀ s, e ≠ .text s) :
    place (e :: rest) texts = e :: place rest texts := by
  cases e with
  | text s => exact absurd rfl (silent s)
  | border | solid | tag => rfl

-- A tag that is met twice in a row says nothing that it does not say once.
inductive Stutters : List Event → List Event → Prop where
  | nil : Stutters [] []
  | both (e : Event) (a b : List Event) (rest : Stutters a b) : Stutters (e :: a) (e :: b)
  | again (e : Event) (a b : List Event) (silent : ∀ s, e ≠ .text s) (rest : Stutters (e :: a) b) :
      Stutters (e :: e :: a) b

theorem stutters_refl (a : List Event) : Stutters a a := by
  induction a with
  | nil => exact .nil
  | cons e a ih => exact .both e a a ih

theorem stutters_append (a b c d : List Event) (first : Stutters a b) (later : Stutters c d) :
    Stutters (a ++ c) (b ++ d) := by
  induction first with
  | nil => exact later
  | both e a b _ ih => exact .both e _ _ ih
  | again e a b silent _ ih => exact .again e _ _ silent ih

theorem stutters_settle (flow : Flow) (a b : List Event) (stutters : Stutters a b) :
    backward (forward flow a) = backward (forward flow b) := by
  induction stutters generalizing flow with
  | nil => rfl
  | both e a b _ ih => cases e <;> simp only [forward, backward, ih]
  | again e a b silent _ ih =>
      rw [← ih]
      cases e with
      | text s => exact absurd rfl (silent s)
      | border | solid => rfl
      | tag =>
          simp only [forward, backward]
          by_cases known : flow.ending.isSome <;> simp [known]

def Hollow (n : Marked) : Prop := isVoidTag n.tag = true → n.kids = []

theorem event_silent (keep : Bool) (t : String) (s : Chars) : eventOf keep t ≠ .text s := by
  unfold eventOf
  split
  · simp
  · split <;> simp

theorem outline_element (keep : Bool) (m : Mark) (t : String) (a : Attrs) :
    ((isKept keep t ∨ isVoidTag t) ∧
        ∀ read ks, outline read keep (.element m t a ks) = [eventOf keep t]) ∨
      (isKept keep t = false ∧ ∀ read ks, outline read keep (.element m t a ks) =
        eventOf keep t :: (outlines read keep ks ++ [eventOf keep t])) := by
  have breaks : isVoidTag "br" = true := by decide
  by_cases kept : isKept keep t
  · have name : t = "pre" ∨ t = "code" := by
      simp only [isKept, Bool.and_eq_true, Bool.or_eq_true, beq_iff_eq] at kept
      exact kept.2
    have whole : t ≠ "br" := by rcases name with rfl | rfl <;> decide
    refine .inl ⟨.inl kept, fun read ks => ?_⟩
    by_cases block : isBlockTag t <;> simp [outline, eventOf, kept, block, whole]
  · by_cases block : isBlockTag t
    · exact .inr ⟨by simpa using kept, fun read ks => by simp [outline, eventOf, kept, block]⟩
    · by_cases broken : t = "br"
      · subst broken
        exact .inl ⟨.inr breaks, fun read ks => by simp [outline, eventOf, kept, block]⟩
      · by_cases void : isVoidTag t
        · exact .inl ⟨.inr void, fun read ks => by simp [outline, eventOf, kept, block, broken, void]⟩
        · exact .inr ⟨by simpa using kept, fun read ks => by simp [outline, eventOf, kept, block, broken, void]⟩

theorem forest_first (n : Marked) (rest : List Marked) (below : Marked) (member : below ∈ n :: n.descendants) :
    below ∈ Node.forest (n :: rest) := by
  rw [Node.forest, ← List.cons_append]
  exact List.mem_append_left _ member

theorem forest_rest (n : Marked) (rest : List Marked) (below : Marked) (member : below ∈ Node.forest rest) :
    below ∈ Node.forest (n :: rest) := by
  rw [Node.forest]
  exact List.mem_cons_of_mem n (List.mem_append_right _ member)

mutual

theorem events_outline (keep : Bool) (n : Marked) (hollow : ∀ below ∈ n :: n.descendants, Hollow below) :
    Stutters (events keep n) (outline raw keep n) := by
  cases n with
  | text m data => exact stutters_refl _
  | comment m data => exact .nil
  | document m ks => exact .nil
  | element m t a ks =>
      have inside := events_outlines keep ks (fun below member => hollow below (List.mem_cons_of_mem _ member))
      have once := stutters_refl [eventOf keep t]
      rw [events]
      rcases outline_element keep m t a with ⟨closed, single⟩ | ⟨inner, around⟩
      · rw [single]
        by_cases kept : isKept keep t
        · rw [if_pos kept]
          exact once
        · have void : isVoidTag t = true := closed.resolve_left kept
          obtain rfl : ks = [] := hollow _ (List.mem_cons_self) void
          rw [if_neg kept]
          exact .again _ [] _ (event_silent keep t) once
      · rw [around, if_neg (by simp [inner])]
        exact .both _ _ _ (stutters_append _ _ _ _ inside once)

theorem events_outlines (keep : Bool) (ks : List Marked) (hollow : ∀ below ∈ Node.forest ks, Hollow below) :
    Stutters (eventsOf keep ks) (outlines raw keep ks) := by
  cases ks with
  | nil => exact .nil
  | cons n rest =>
      have first := events_outline keep n (fun below member => hollow below (forest_first n rest below member))
      have later := events_outlines keep rest (fun below member => hollow below (forest_rest n rest below member))
      exact stutters_append _ _ _ _ first later

end

theorem parted_at {α : Type} (whole : List α) (a b : Nat) (long : whole.length = a + b) :
    ∃ here there, whole = here ++ there ∧ here.length = a ∧ there.length = b := by
  refine ⟨whole.take a, whole.drop a, (List.take_append_drop a whole).symm, ?_, ?_⟩
  · rw [List.length_take]
    omega
  · rw [List.length_drop]
    omega

mutual

theorem fill_outline (missing : Chars → Chars) (keep : Bool) (n : Marked) (texts more : List Chars)
    (hollow : ∀ below ∈ n :: n.descendants, Hollow below)
    (enough : texts.length = textCount (outline raw keep n)) :
    outline (noted missing) keep (fill keep n (texts ++ more)).1 = place (outline raw keep n) texts ∧
      (fill keep n (texts ++ more)).2 = more := by
  cases n with
  | text m data =>
      obtain ⟨s, rfl⟩ := List.length_eq_one_iff.mp enough
      exact ⟨rfl, rfl⟩
  | comment m data | document m ks =>
      obtain rfl := List.eq_nil_of_length_eq_zero enough
      exact ⟨rfl, rfl⟩
  | element m t a ks =>
      rw [fill]
      rcases outline_element keep m t a with ⟨closed, single⟩ | ⟨inner, around⟩
      · rw [single, text_count_silent _ _ (event_silent keep t)] at enough
        obtain rfl := List.eq_nil_of_length_eq_zero enough
        rw [single, place_silent _ _ _ (event_silent keep t)]
        by_cases kept : isKept keep t
        · rw [if_pos kept]
          exact ⟨single _ ks, rfl⟩
        · have void : isVoidTag t = true := closed.resolve_left kept
          obtain rfl : ks = [] := hollow _ (List.mem_cons_self) void
          rw [if_neg kept]
          exact ⟨single _ [], rfl⟩
      · have below (n : Marked) (member : n ∈ Node.forest ks) := hollow n (List.mem_cons_of_mem _ member)
        have silent := event_silent keep t
        rw [around, text_count_silent _ _ silent, text_count_append, text_count_silent _ _ silent] at enough
        obtain ⟨filled, left⟩ := fill_outlines missing keep ks texts more below enough
        rw [if_neg (by simp [inner]), around, around, place_silent _ _ _ silent]
        refine ⟨?_, left⟩
        have placed := place_append (outlines raw keep ks) [eventOf keep t] texts [] enough
        rw [List.append_nil, place_silent _ _ _ silent] at placed
        rw [placed, filled]
        rfl

theorem fill_outlines (missing : Chars → Chars) (keep : Bool) (ks : List Marked) (texts more : List Chars)
    (hollow : ∀ below ∈ Node.forest ks, Hollow below)
    (enough : texts.length = textCount (outlines raw keep ks)) :
    outlines (noted missing) keep (fillAll keep ks (texts ++ more)).1 = place (outlines raw keep ks) texts ∧
      (fillAll keep ks (texts ++ more)).2 = more := by
  cases ks with
  | nil =>
      obtain rfl := List.eq_nil_of_length_eq_zero enough
      exact ⟨rfl, rfl⟩
  | cons n rest =>
      rw [outlines, text_count_append] at enough
      obtain ⟨here, there, rfl, short, others⟩ := parted_at texts _ _ enough
      obtain ⟨first, left⟩ := fill_outline missing keep n here (there ++ more)
        (fun below member => hollow below (forest_first n rest below member)) short
      obtain ⟨later, unused⟩ := fill_outlines missing keep rest there more
        (fun below member => hollow below (forest_rest n rest below member)) others
      rw [fillAll, List.append_assoc]
      simp only [left, outlines, first, later, unused, place_append _ _ here there short, and_self]

end

-- Void elements are empty, so meeting each of their two tags says the same as meeting them once.
theorem fill_swept (missing : Chars → Chars) (keep : Bool) (symbol : Char) (solid : isCollapsible symbol = false)
    (ks : List Marked) (hollow : ∀ below ∈ Node.forest ks, Hollow below)
    (swept : forward {} (outlines raw keep ks) = sweep true (outlines raw keep ks)) :
    spelledRuns symbol (outlines (noted missing) keep (fillAll keep ks (settle (eventsOf keep ks))).1) =
      (spelledRuns symbol (outlines raw keep ks)).map settled := by
  have once : settle (eventsOf keep ks) = settle (outlines raw keep ks) :=
    congrArg Prod.snd (stutters_settle {} _ _ (events_outlines keep ks hollow))
  have filled := (fill_outlines missing keep ks _ [] hollow (settle_count (outlines raw keep ks))).1
  rw [List.append_nil] at filled
  rw [once, filled, settle, swept, (sweep_settles symbol solid true (outlines raw keep ks)).1, settle_from_border]

theorem fill_settles (missing : Chars → Chars) (keep : Bool) (symbol : Char) (solid : isCollapsible symbol = false)
    (ks : List Marked) (hollow : ∀ below ∈ Node.forest ks, Hollow below) (apart : Apart (outlines raw keep ks)) :
    spelledRuns symbol (outlines (noted missing) keep (fillAll keep ks (settle (eventsOf keep ks))).1) =
      (spelledRuns symbol (outlines raw keep ks)).map settled :=
  fill_swept missing keep symbol solid ks hollow
    (forward_sweeps true {} _ rfl (fun _ => by simp [Fresh]) apart)

theorem collapse_settles_runs (keep : Bool) (symbol : Char) (solid : isCollapsible symbol = false)
    (missing : Chars → Chars) (root : Marked) (inner : isKept keep root.tag = false)
    (hollow : ∀ below ∈ root.descendants, Hollow below) (apart : Apart (outlines raw keep root.kids)) :
    (runs (outlines (noted missing) keep (collapse keep root).kids)).map (spell symbol) =
      (runs (outlines raw keep root.kids)).map fun run => settled (spell symbol run) := by
  have whole (ks : List Marked) : (runs (outlines raw keep ks)).map (fun run => settled (spell symbol run)) =
      (spelledRuns symbol (outlines raw keep ks)).map settled := by
    simp [spelledRuns, Function.comp_def]
  rw [whole]
  cases root with
  | text m data | comment m data => rfl
  | document m ks => exact fill_settles missing keep symbol solid ks hollow apart
  | element m t a ks =>
      have opened : isKept keep t = false := inner
      have shape : collapse keep (.element m t a ks) =
          .element m t a (fillAll keep ks (settle (eventsOf keep ks))).1 := by
        simp [collapse, opened]
      rw [shape]
      exact fill_settles missing keep symbol solid ks hollow apart

-- Kept code and an image stand for one symbol each; the line break parts the two runs.
def mixedParagraph : Marked :=
  .element {} "p" [] [.text {} [' ', 'a', '\n'], .element {} "b" [] [.text {} ['\t', 'b']],
    .element {} "code" [] [.text {} ['x']], .element {} "br" [] [], .text {} [' ', 'c', ' '],
    .element {} "img" [] []]

theorem collapse_settles_mixed_paragraph :
    (runs (outlines raw true mixedParagraph.kids)).map (spell '*') = [" a\n\tb*".toList, " c *".toList] ∧
    (runs (outlines (noted id) true (collapse true mixedParagraph).kids)).map (spell '*') =
      ["a b*".toList, "c *".toList] :=
  ⟨by decide, (collapse_settles_runs true '*' rfl id mixedParagraph (by decide) (by unfold Hollow; decide)
    trivial).trans (by decide)⟩

end Downmark.Whitespace
