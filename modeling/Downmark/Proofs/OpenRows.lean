import Downmark.Proofs.OpenElements
import Downmark.Proofs.StruckTable
import Downmark.Proofs.Tracking
/-!
The rows of open elements. A rendering goes through a tree frame by frame. Main statement: at every moment of it, what is
written of an open element within a line has a row of signs that the tree gives for the children so far.
-/

set_option autoImplicit false

namespace Downmark.Render

open Node Whitespace

/-! Rows of several nodes -/

theorem row_append (o : Options) (front back : List Marked) (a b : List Sign) (first : a ∈ rowReadings o front)
    (next : b ∈ rowReadings o back) : a ++ b ∈ rowReadings o (front ++ back) := by
  induction front generalizing a with
  | nil =>
      obtain rfl := List.mem_singleton.mp first
      exact next
  | cons n rest ih =>
      rw [rowReadings, List.mem_flatMap] at first
      obtain ⟨signs, here, later⟩ := first
      obtain ⟨more, below, rfl⟩ := List.mem_map.mp later
      rw [List.cons_append, rowReadings, List.mem_flatMap]
      exact ⟨signs, here, List.mem_map.mpr ⟨more ++ b, ih more below, (List.append_assoc _ _ _).symm⟩⟩

theorem row_single (o : Options) (n : Marked) (signs : List Sign) (read : signs ∈ readings o n) :
    signs ∈ rowReadings o [n] :=
  List.mem_flatMap.mpr ⟨signs, read, List.mem_map.mpr ⟨[], List.mem_singleton_self _, List.append_nil signs⟩⟩

/-! What is written for an element -/

theorem line_written (signs : List Sign) (output w : Chars) (signed : Signed signs w) (free : '\n' ∉ w) :
    Written signs output w :=
  ⟨signed, fun _ newline => absurd (List.mem_of_head? newline) free⟩

theorem broken_written (signs : List Sign) (output w : Chars) (signed : Signed signs w) (broken : Broken w) :
    Written signs output w :=
  ⟨signed, fun whole => absurd (signed.broken.mp broken) whole⟩

-- The gaps that are split off at the start come back, unless there is a gap before them.
theorem written_around (o : Options) (n : Marked) (inside : List Sign) (content preceding inner trailing : Chars)
    (written : Written inside [] content) (read : ReadAs o n inside (Whitespace.flanking content).2.1 inner)
    (last : Gaps trailing) : Written (inlineSigns o n inside) preceding
      ((if endsInGap preceding then [] else (Whitespace.flanking content).1) ++ inner ++ trailing) := by
  obtain ⟨signed, starts⟩ := read
  have whole := flanking_whole content
  have first : Gaps (Whitespace.flanking content).1 := (gaps_iff _).mpr (flanking_gaps content).1
  generalize Whitespace.flanking content = parts at starts whole first ⊢
  obtain ⟨leading, core, behind⟩ := parts
  have split : Gaps (if endsInGap preceding then [] else leading) := by
    split
    · rfl
    · exact first
  have same : gapless inner = gapless ((if endsInGap preceding then [] else leading) ++ inner ++ trailing) := by
    rw [gapless_append, gapless_append, show gapless (ite _ _ _) = [] from split, show gapless trailing = [] from last,
      List.nil_append, List.append_nil]
  refine ⟨signed_same _ _ _ same signed, fun unsevered newline => ?_⟩
  by_contra solid
  rw [if_neg solid] at newline
  cases leading with
  | cons c rest =>
      obtain rfl : c = '\n' := Option.some.inj newline
      exact gaps_line_free _ first List.mem_cons_self
  | nil =>
      cases inner with
      | nil => exact gaps_line_free _ last (List.mem_of_head? newline)
      | cons c rest =>
          obtain ⟨same, row⟩ := starts newline
          refine absurd (written.opens (row ▸ unsevered) ?_) Bool.false_ne_true
          rw [← whole, List.nil_append, ← same]
          exact newline

section

variable (o : Options) (flowing : o.preformattedCode = false)
variable (m : Mark) (t : String) (a : Attrs) (ks : List Marked) (path : List Step)

include flowing

theorem line_element_written (level : isBlockTag t = false)
    (outside : Site.parentTag? ⟨.element m t a ks, path⟩ ≠ some "pre") (rule : Rule)
    (found : struckTable.find ⟨.element m t a ks, path⟩ o m.blank = .ok rule) (inside : List Sign)
    (row : inside ∈ rowReadings o (if rule.rendersChildren then ks else [])) (content preceding written : Chars)
    (before : Written inside [] content) (s u : State) (labelled : Labelled o s)
    (plain : LabelledByText o → t = "a" → ¬ Broken content)
    (replaced : replace rule ⟨.element m t a ks, path⟩ o content preceding s = .ok written u) :
    ∃ signs ∈ readings o (.element m t a ks), Written signs preceding written := by
  have within : ¬ isBlock (.element m t a ks : Marked) = true := by simp [isBlock, Node.tag, level]
  obtain ⟨inner, trailing, rfl, last, worked⟩ :=
    replace_split rule ⟨.element m t a ks, path⟩ o flowing level content preceding written s u replaced
  have nothing (none : inner = []) : Written [] preceding
      ((if endsInGap preceding then [] else (Whitespace.flanking content).1) ++ inner ++ trailing) := by
    have gaps : Gaps ((if endsInGap preceding then [] else (Whitespace.flanking content).1) ++ inner ++ trailing) := by
      refine gaps_append _ _ (gaps_append _ _ ?_ (none ▸ rfl)) last
      split
      · rfl
      · exact (gaps_iff _).mpr (flanking_gaps content).1
    exact line_written _ _ _ (signed_same [] [] _ gaps.symm signed_nil) (gaps_line_free _ gaps)
  cases blank : m.blank with
  | true =>
      rw [blank] at found
      cases found
      change Rule.blankReplacement (Whitespace.flanking content).2.1 _ o s = .ok inner u at worked
      have made := of_function_ok _ _ _ o s u inner worked
      rw [if_neg within] at made
      exact ⟨[], by simp [readings, blank, level], nothing made⟩
  | false =>
      rw [blank] at found
      by_cases removed : t ∈ removedTags
      · rw [struck_removed m t a ks path o removed] at found
        cases found
        change Rule.removeReplacement (Whitespace.flanking content).2.1 ⟨.element m t a ks, path⟩ o s = .ok inner u
          at worked
        exact ⟨[], by simp [readings, blank, removed], nothing (of_function_ok _ _ _ o s u inner worked)⟩
      · have ruled := struck_ruled _ o rule found
        rw [ruled_renders o m t a ks path level removed rule ruled, if_pos rfl] at row
        have same := flanking_gapless content
        have signed := signed_same inside content _ same.symm before.signed
        have plain : LabelledByText o → t = "a" → ¬ Broken (Whitespace.flanking content).2.1 :=
          fun byText named broken => plain byText named ((broken_same _ _ same).mp broken)
        have read : ReadAs o (.element m t a ks) inside (Whitespace.flanking content).2.1 inner := by
          cases ruled with
          | struck named =>
              change Gfm.strikethrough _ ⟨.element m t a ks, path⟩ o s = .ok inner u at worked
              obtain rfl := of_function_ok _ _ _ o s u inner worked
              exact struck_read o m t a ks inside _ named signed
          | listed rule listed claims =>
              exact listed_read o m t a ks path level inside _ inner s u signed (flanking_stops content).1 labelled
                plain rule listed claims worked
          | removed tag listed named =>
              have same : t = tag := named
              exact absurd (same ▸ listed) removed
          | other unstruck unclaimed =>
              change Rule.defaultReplacement _ ⟨.element m t a ks, path⟩ o s = .ok inner u at worked
              have made := of_function_ok _ _ _ o s u inner worked
              rw [if_neg within] at made
              rw [made]
              exact default_read o m t a ks path outside unstruck inside _ signed unclaimed
        refine ⟨_, ?_, written_around o (.element m t a ks) inside content preceding inner trailing before read last⟩
        simp only [readings, blank, level, removed, List.contains_iff_mem, Bool.false_eq_true, if_false]
        exact List.mem_map_of_mem row

omit flowing in
theorem block_element_written (level : isBlockTag t = true) (tidy : m.Tidy)
    (apart : ∀ step ∈ path.head?, step.head.tag ≠ "li") (rule : Rule)
    (found : struckTable.find ⟨.element m t a ks, path⟩ o m.blank = .ok rule) (content preceding written : Chars)
    (s u : State) (replaced : replace rule ⟨.element m t a ks, path⟩ o content preceding s = .ok written u) :
    ∃ signs ∈ readings o (.element m t a ks), Written signs preceding written := by
  have block : isBlock (.element m t a ks : Marked) = true := level
  rw [replace, if_pos (by simp [block])] at replaced
  cases blank : m.blank with
  | true =>
      rw [blank] at found
      cases found
      change Rule.blankReplacement content _ o s = .ok written u at replaced
      have made := of_function_ok _ _ _ o s u written replaced
      rw [if_pos block] at made
      subst made
      have broken : Broken ['\n', '\n'] := ⟨[], [], [], rfl, by simp⟩
      exact ⟨[.parted], by simp [readings, blank, level],
        broken_written _ _ _ (signed_severed _ _ (by decide) (by decide) broken) broken⟩
  | false =>
      rw [blank] at found
      by_cases removed : t ∈ removedTags
      · rw [struck_removed m t a ks path o removed] at found
        cases found
        change Rule.removeReplacement content ⟨.element m t a ks, path⟩ o s = .ok written u at replaced
        obtain rfl := of_function_ok _ _ _ o s u written replaced
        exact ⟨[], by simp [readings, blank, removed], line_written _ _ _ signed_nil List.not_mem_nil⟩
      · have rows : readings o (.element m t a ks) = blockSigns (.element m t a ks) := by
          simp [readings, blank, level, removed]
        rw [rows]
        by_cases named : t = "li"
        · subst named
          rw [item_found] at found
          cases found
          obtain ⟨c, rest, rfl, ink⟩ := item_inked o m "li" a ks path tidy content written s u replaced
          obtain ⟨signs, listed, signed⟩ := item_signed (.element m "li" a ks) rfl c rest ink
          refine ⟨signs, listed, signed, fun _ newline => ?_⟩
          exact absurd (Option.some.inj newline) ink.newline
        · have broken := ruled_parted o m t a ks path level named removed apart rule (struck_ruled _ o rule found)
            content written s u replaced
          obtain ⟨signs, listed, signed⟩ := parted_signed (.element m t a ks) written broken
          exact ⟨signs, listed, broken_written _ _ _ signed broken⟩

theorem element_labelled (rule : Rule) (found : struckTable.find ⟨.element m t a ks, path⟩ o m.blank = .ok rule)
    (content preceding written : Chars) (s u : State) (labelled : Labelled o s)
    (plain : LabelledByText o → t = "a" → ¬ Broken content)
    (replaced : replace rule ⟨.element m t a ks, path⟩ o content preceding s = .ok written u) : Labelled o u := by
  have asked (content inner : Chars) (plain : LabelledByText o → t = "a" → ¬ Broken content)
      (worked : rule.replacement content ⟨.element m t a ks, path⟩ o s = .ok inner u) : Labelled o u := by
    cases blank : m.blank with
    | true =>
        rw [blank] at found
        cases found
        cases worked
        exact labelled
    | false =>
        rw [blank] at found
        exact ruled_labelled o m t a ks path rule (struck_ruled _ o rule found) content inner s u labelled plain worked
  cases level : isBlockTag t with
  | true =>
      rw [replace, if_pos (by simp [isBlock, Node.tag, level])] at replaced
      exact asked content written plain replaced
  | false =>
      obtain ⟨inner, trailing, -, -, worked⟩ :=
        replace_split rule ⟨.element m t a ks, path⟩ o flowing level content preceding written s u replaced
      exact asked _ inner (fun byText named broken => plain byText named
        ((broken_same _ _ (flanking_gapless content)).mp broken)) worked

end

/-! Open frames -/

def LinksWhole (o : Options) (ks : List Marked) : Prop :=
  ∀ below ∈ forest ks, below.isNamed "a" = true → ∀ signs ∈ rowReadings o below.kids, ¬ Severed signs

structure Ready (o : Options) (ks : List Marked) : Prop where
  noted : Noted ks
  tidy : TidyAll ks
  links : LabelledByText o → LinksWhole o ks

theorem ready_cons (o : Options) (n : Marked) (rest : List Marked) (ready : Ready o (n :: rest)) :
    Ready o [n] ∧ Ready o rest := by
  obtain ⟨noted, tidy, links⟩ := ready
  obtain ⟨here, later⟩ := (noted_cons n rest).mp noted
  refine ⟨⟨here, ⟨tidy.1, trivial⟩, fun byText below member => links byText below ?_⟩,
    ⟨later, tidy.2, fun byText below member => links byText below ?_⟩⟩
  · simp only [forest, List.append_nil, List.mem_cons, List.mem_append] at member ⊢
    exact member.imp_right .inl
  · simp only [forest, List.mem_cons, List.mem_append]
    exact .inr (.inr member)

theorem ready_kids (o : Options) (n : Marked) (ready : Ready o [n]) : Ready o n.kids := by
  obtain ⟨noted, tidy, links⟩ := ready
  have below : ∀ deeper ∈ forest n.kids, deeper ∈ forest [n] := fun deeper member => by
    rw [← descendants_kids] at member
    exact List.mem_cons_of_mem _ (List.mem_append_left _ member)
  refine ⟨fun m data member => noted m data (below _ member), ?_,
    fun byText deeper member => links byText deeper (below deeper member)⟩
  cases n with
  | text | comment => trivial
  | element => exact tidy.1.2
  | document => exact tidy.1

/-- What is known of open frames, while the innermost one waits for some nodes: within a line, its output has a row that
the tree gives for the children that are written. -/
inductive Underway (o : Options) : List Marked → List Frame → Prop where
  | root (waiting : List Marked) (ground : Ground) (pending : List Marked) (output : Chars)
      (ready : Ready o pending) : Underway o waiting [⟨none, ground, pending, output⟩]
  | inside (waiting : List Marked) (m : Mark) (t : String) (a : Attrs) (ks : List Marked) (path : List Step)
      (rule : Rule) (before pending : List Marked) (output : Chars) (outer : List Frame)
      (found : struckTable.find ⟨.element m t a ks, path⟩ o m.blank = .ok rule)
      (whole : Ready o [.element m t a ks]) (ready : Ready o pending)
      (read : isBlockTag t = false →
        ∃ done, done ++ (waiting ++ pending) = (if rule.rendersChildren then ks else []) ∧
          ∃ signs ∈ rowReadings o done, Written signs [] output)
      (placed : ∀ next ∈ outer.head?, ∀ head above before, next.ground = .among head above before →
        ∀ step ∈ path.head?, step.head = head)
      (around : Underway o [.element m t a ks] outer) :
      Underway o waiting
        (⟨some (⟨.element m t a ks, path⟩, rule), .among (.element m t a) path before, pending, output⟩ :: outer)

section

variable (o : Options) (opener : Option (Site × Rule)) (ground : Ground) (n : Marked) (pending : List Marked)
variable (output : Chars) (outer : List Frame)

theorem underway_waits (underway : Underway o [] (⟨opener, ground, n :: pending, output⟩ :: outer)) :
    Ready o [n] ∧ Underway o [n] (⟨opener, ground.past n, pending, output⟩ :: outer) := by
  cases underway with
  | root _ _ _ _ ready =>
      obtain ⟨here, later⟩ := ready_cons o n pending ready
      exact ⟨here, .root [n] _ pending output later⟩
  | inside _ m t a ks path rule before _ _ _ found whole ready read placed around =>
      obtain ⟨here, later⟩ := ready_cons o n pending ready
      exact ⟨here,
        .inside [n] m t a ks path rule (n :: before) pending output outer found whole later read placed around⟩

theorem underway_passed (later : Chars) (underway : Underway o [n] (⟨opener, ground, pending, output⟩ :: outer))
    (piece : ∀ m t a path before, ground = .among (.element m t a) path before → isBlockTag t = false →
      ∀ signs, Written signs [] output → ∃ more ∈ readings o n, Written (signs ++ more) [] later) :
    Underway o [] (⟨opener, ground, pending, later⟩ :: outer) := by
  cases underway with
  | root _ _ _ _ ready => exact .root [] ground pending later ready
  | inside _ m t a ks path rule before _ _ _ found whole ready read placed around =>
      refine .inside [] m t a ks path rule before pending later outer found whole ready (fun level => ?_) placed around
      obtain ⟨done, all, signs, row, written⟩ := read level
      obtain ⟨more, here, further⟩ := piece m t a path before rfl level signs written
      refine ⟨done ++ [n], ?_, signs ++ more, row_append o done [n] signs more row (row_single o n more here), further⟩
      rw [List.append_assoc]
      exact all

end

theorem entered_underway (o : Options) (opener : Option (Site × Rule)) (ground : Ground) (m : Mark) (t : String)
    (a : Attrs) (ks after : List Marked) (output : Chars) (outer : List Frame) (rule : Rule)
    (found : struckTable.find ⟨.element m t a ks, ground.pathOf after (.element m t a ks)⟩ o m.blank = .ok rule)
    (underway : Underway o [] (⟨opener, ground, .element m t a ks :: after, output⟩ :: outer)) :
    Underway o [] (Frame.ofElement ⟨.element m t a ks, ground.pathOf after (.element m t a ks)⟩ rule m t a ks ::
      ⟨opener, ground.past (.element m t a ks), after, output⟩ :: outer) := by
  obtain ⟨whole, around⟩ := underway_waits o opener ground _ after output outer underway
  have kids := ready_kids o _ whole
  refine .inside [] m t a ks _ rule [] _ [] _ found whole ?_ (fun _ => ⟨[], rfl, [], List.mem_singleton_self _, ?_⟩) ?_
    around
  · split
    · exact kids
    · exact ⟨by simp [Noted, forest], trivial, fun _ => by simp [LinksWhole, forest]⟩
  · exact line_written _ _ _ signed_nil List.not_mem_nil
  · rintro next ⟨⟩ head above before same step first
    cases ground with
    | alone => cases same
    | among head' path before' =>
        cases same
        rw [Ground.pathOf, Site.pathTo] at first
        split at first
        · cases first
          rfl
        · cases first

section

variable (o : Options) (m : Mark) (t : String) (a : Attrs) (ks : List Marked) (path : List Step) (rule : Rule)
variable (ground : Ground) (content : Chars) (outer : List Frame)
variable (underway : Underway o [] (⟨some (⟨.element m t a ks, path⟩, rule), ground, [], content⟩ :: outer))

include underway

theorem content_read (level : isBlockTag t = false) :
    ∃ signs ∈ rowReadings o (if rule.rendersChildren then ks else []), Written signs [] content := by
  cases underway with
  | inside _ _ _ _ _ _ _ _ _ _ _ found whole ready read placed around =>
      obtain ⟨done, all, signs, row, written⟩ := read level
      rw [List.append_nil, List.append_nil] at all
      exact ⟨signs, all ▸ row, written⟩

theorem link_content_whole (byText : LabelledByText o) (named : t = "a") : ¬ Broken content := by
  have level : isBlockTag t = false := named ▸ rfl
  obtain ⟨signs, row, written⟩ := content_read o m t a ks path rule ground content outer underway level
  rw [written.signed.broken]
  split at row
  · cases underway with
    | inside _ _ _ _ _ _ _ _ _ _ _ found whole =>
        exact whole.links byText _ List.mem_cons_self (by simpa [isNamed] using named) signs row
  · rw [List.mem_singleton.mp row]
    decide

end

-- An element that is closed within an open element is written with one of its rows.
theorem closed_underway (o : Options) (flowing : o.preformattedCode = false) (m : Mark) (t : String) (a : Attrs)
    (ks : List Marked) (path : List Step) (rule : Rule) (ground : Ground) (content written : Chars) (next : Frame)
    (outer : List Frame) (s u : State)
    (underway : Underway o [] (⟨some (⟨.element m t a ks, path⟩, rule), ground, [], content⟩ :: next :: outer))
    (labelled : Labelled o s)
    (replaced : replace rule ⟨.element m t a ks, path⟩ o content next.output s = .ok written u) :
    Underway o [] ({ next with output := join next.output written } :: outer) ∧ Labelled o u := by
  have read := content_read o m t a ks path rule ground content (next :: outer) underway
  have plain := link_content_whole o m t a ks path rule ground content (next :: outer) underway
  cases underway with
  | inside _ _ _ _ _ _ _ before _ _ _ found whole _ _ placed around =>
      refine ⟨underway_passed o next.opener next.ground _ next.pending next.output outer _ around ?_,
        element_labelled o flowing m t a ks path rule found content next.output written s u labelled plain replaced⟩
      intro m' t' a' above before' same inline signs known
      have within : ∀ step ∈ path.head?, isBlockTag step.head.tag = false := fun step first => by
        rw [placed next rfl _ _ _ same step first]
        exact inline
      have apart (name : String) (block : isBlockTag name = true) : ∀ step ∈ path.head?, step.head.tag ≠ name := by
        rintro step first rfl
        exact absurd ((within step first).symm.trans block) Bool.false_ne_true
      obtain ⟨more, row, wrote⟩ : ∃ more ∈ readings o (.element m t a ks), Written more next.output written := by
        cases level : isBlockTag t with
        | true =>
            exact block_element_written o m t a ks path level whole.tidy.1.1 (apart "li" rfl) rule found content
              next.output written s u replaced
        | false =>
            obtain ⟨inside, row, known⟩ := read level
            refine line_element_written o flowing m t a ks path level (fun pre => ?_) rule found inside row content
              next.output written known s u labelled plain replaced
            cases path with
            | nil => cases pre
            | cons step rest =>
                refine apart "pre" rfl step rfl ?_
                obtain ⟨head, _, _, _⟩ := step
                cases head with
                | document => cases pre
                | element => exact Option.some.inj pre
      exact ⟨more, row, written_join _ _ _ _ known wrote⟩

theorem next_underway (o : Options) (flowing : o.preformattedCode = false) (now later : Moment)
    (next : Moment.Next struckTable o now later) (underway : Underway o [] now.frames)
    (labelled : Labelled o now.state) : Underway o [] later.frames ∧ Labelled o later.state := by
  obtain ⟨frames, s⟩ := now
  obtain ⟨after, u⟩ := later
  change advance struckTable o frames s = .ok (.go after) u at next
  cases frames with
  | nil => cases next
  | cons frame outer =>
      obtain ⟨opener, ground, pending, output⟩ := frame
      cases pending with
      | nil =>
          cases underway with
          | root => cases next
          | inside _ m t a ks path rule before _ _ _ found whole ready read placed around =>
              cases outer with
              | nil => cases next
              | cons frame outer =>
                  obtain ⟨written, v, replaced, rest⟩ := (bind_ok_iff _ _ _ _ _).mp next
                  obtain ⟨⟨⟩, w, left, last⟩ := (bind_ok_iff _ _ _ _ _).mp rest
                  cases last
                  obtain ⟨further, kept⟩ := closed_underway o flowing m t a ks path rule _ output written frame outer
                    s v (.inside [] m t a ks path rule before [] output _ found whole ready read placed around)
                    labelled replaced
                  refine ⟨further, fun referenced => ?_⟩
                  rw [leave_references o _ v u left]
                  exact kept referenced
      | cons n pending =>
          obtain ⟨ready, waits⟩ := underway_waits o opener ground n pending output outer underway
          have quiet (none : readings o n = [[]]) :
              Underway o [] (⟨opener, ground.past n, pending, output⟩ :: outer) := by
            refine underway_passed o opener _ n pending output outer output waits fun _ _ _ _ _ _ _ signs known => ?_
            exact ⟨[], none ▸ List.mem_singleton_self _, by rwa [List.append_nil]⟩
          cases n with
          | text m data =>
              cases next
              refine ⟨underway_passed o opener _ _ pending output outer _ waits fun _ _ _ _ _ _ _ signs known => ?_,
                labelled⟩
              obtain ⟨signed, free⟩ := text_signed o flowing s _ m data ((noted_text m data).mp ready.noted)
              exact ⟨_, List.mem_singleton_self _, written_join _ _ _ _ known (line_written _ _ _ signed free)⟩
          | comment m data =>
              cases next
              exact ⟨quiet rfl, labelled⟩
          | document m ks =>
              cases next
              exact ⟨quiet rfl, labelled⟩
          | element m t a ks =>
              obtain ⟨rule, v, ruled, rest⟩ := (bind_ok_iff _ _ _ _ _).mp next
              obtain ⟨⟨⟩, w, entered, last⟩ := (bind_ok_iff _ _ _ _ _).mp rest
              obtain ⟨found, rfl⟩ := rule_for_ok struckTable o _ s v rule ruled
              cases last
              refine ⟨entered_underway o opener ground m t a ks pending output outer rule found underway,
                fun referenced => ?_⟩
              rw [enter_references o _ v u entered]
              exact labelled referenced

theorem reaches_underway (o : Options) (flowing : o.preformattedCode = false) (start now : Moment)
    (reaches : Moment.Reaches struckTable o start now) (underway : Underway o [] start.frames)
    (labelled : Labelled o start.state) : Underway o [] now.frames ∧ Labelled o now.state := by
  induction reaches with
  | refl => exact ⟨underway, labelled⟩
  | tail _ next ih => exact next_underway o flowing _ _ next ih.1 ih.2

theorem root_unmarked (tree : Tree) : ∃ n : Tree, (rootOf (Site.ofTree tree)).node = n.mapMarks fun _ => {} := by
  have inside := root_inside (Site.ofTree tree)
  change _ ∈ (tree.mapMarks fun _ => ({} : Mark)) :: (tree.mapMarks fun _ => ({} : Mark)).descendants at inside
  rw [descendants_marks, ← List.map_cons] at inside
  obtain ⟨n, -, same⟩ := List.mem_map.mp inside
  exact ⟨n, same.symm⟩

theorem started_underway (o : Options) (tree : Tree) (s : State)
    (links : LabelledByText o → LinksWhole o [((rootOf (Site.ofTree tree)).prepared o).node]) :
    Underway o [] (started o (Site.ofTree tree) s).frames := by
  obtain ⟨n, unmarked⟩ := root_unmarked tree
  have top : ((rootOf (Site.ofTree tree)).prepared o).node = prepare o (n.mapMarks fun _ => {}) := by
    rw [Site.prepared, unmarked]
  have ready : Ready o [((rootOf (Site.ofTree tree)).prepared o).node] := by
    refine ⟨?_, ?_, links⟩
    · rw [top]
      exact prepare_noted o _ (fresh_noted n {} rfl)
    · rw [top]
      exact ⟨prepared_tidy o _ (unmarked_tidy n), trivial⟩
  rw [started, rootFrame]
  split
  · rename_i shape
    rw [shape] at ready
    exact .root [] _ _ [] (ready_kids o _ ready)
  · rename_i shape
    rw [shape] at ready
    exact .root [] _ _ [] (ready_kids o _ ready)
  · exact .root [] _ _ [] ready

end Downmark.Render
