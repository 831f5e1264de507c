import Downmark.Proofs.CitedLinks
import Downmark.Proofs.LegibleText
import Downmark.Proofs.OpenElements
import Downmark.Proofs.SolidEnds
/-!
Text and links around text, one after the other. Main statement: rendering them writes a reference for each link, with
the label that the collector gives for its text, and nothing in brackets between the references.
-/

set_option autoImplicit false

namespace Downmark

open Reference Whitespace

namespace Node

variable {μ ν : Type}

def isText : Node μ → Bool
  | .text _ _ => true
  | _ => false

-- Text, or a link around nothing but text of which there is something to see.
def isPassage : Node μ → Bool
  | .element _ t _ ks => t == "a" && ks.all isText && !Text.isBlankText (textContents ks)
  | n => n.isText

mutual

theorem map_marks_content (f : μ → ν) (n : Node μ) : (n.mapMarks f).textContent = n.textContent := by
  cases n with
  | text | comment => rfl
  | element m t a ks => exact map_all_marks_contents f ks
  | document m ks => exact map_all_marks_contents f ks

theorem map_all_marks_contents (f : μ → ν) (ks : List (Node μ)) :
    textContents (mapAllMarks f ks) = textContents ks := by
  cases ks with
  | nil => rfl
  | cons n rest =>
      rw [mapAllMarks, textContents, map_marks_content f n, map_all_marks_contents f rest, textContents]

end

theorem texts_marks (f : μ → ν) (ks : List (Node μ)) : (mapAllMarks f ks).all isText = ks.all isText := by
  rw [map_all_marks_map, List.all_map]
  refine congrArg ks.all (funext fun n => ?_)
  cases n <;> rfl

theorem passages_marks (f : μ → ν) (ks : List (Node μ)) : (mapAllMarks f ks).all isPassage = ks.all isPassage := by
  rw [map_all_marks_map, List.all_map]
  refine congrArg ks.all (funext fun n => ?_)
  cases n with
  | element m t a ks => simp only [Function.comp_apply, mapMarks, isPassage, texts_marks, map_all_marks_contents]
  | text | comment | document => rfl

theorem texts_targets (ks : List (Node μ)) (texts : ks.all isText = true) : targetsOf ks = [] := by
  induction ks with
  | nil => rfl
  | cons n rest ih =>
      obtain ⟨own, others⟩ := (Bool.and_eq_true _ _).mp texts
      cases n with
      | text m data => rw [targetsOf, targets, ih others, List.nil_append]
      | comment | element | document => cases own

-- A link without a destination is none.
theorem anchor_targets (m : μ) (a : Attrs) (ks : List (Node μ)) (texts : ks.all isText = true) :
    targets (.element m "a" a ks) = if (attr "href" (.element m "a" a ks)).isEmpty then []
      else [(attr "href" (.element m "a" a ks), Link.title? (.element m "a" a ks))] := by
  have read : isUnread (.element m "a" a ks) = false := by simp [isUnread, Code.isBlock, isNamed, Node.tag, removedTags]
  rw [targets, read, if_neg Bool.false_ne_true, texts_targets ks texts, List.nil_append, target?]
  cases (attr "href" (.element m "a" a ks)).isEmpty <;> rfl

end Node

namespace Render

open Node

theorem text_shown (o : Options) (s : State) (uncoded : s.inCode = false) (flowing : s.inPreformatted = false)
    (m : Mark) (data : Chars) : s.textOf o m data = shown m data := by
  unfold State.textOf shown Whitespace.noted
  cases m.shown with
  | some text => rfl
  | none => simp [uncoded, flowing]

theorem text_spelled (o : Options) (s : State) (uncoded : s.inCode = false) (flowing : s.inPreformatted = false)
    (opened : List Open) (m : Mark) (data : Chars) :
    Escape.Spelled Escape.inlineSpecial true (shown m data) (textOutput s o opened m data) := by
  rw [textOutput, text_shown o s uncoded flowing]
  dsimp only
  rw [uncoded, if_neg Bool.false_ne_true, flowing, if_neg Bool.false_ne_true]
  exact Escape.markdown_spelled _ _

theorem text_muted (o : Options) (s : State) (uncoded : s.inCode = false) (flowing : s.inPreformatted = false)
    (opened : List Open) (m : Mark) (data : Chars) (regapped : Regapped (shown m data) data) :
    Muted (textOutput s o opened m data) :=
  spelled_muted true _ _ (text_spelled o s uncoded flowing opened m data) regapped.spaced

theorem text_seen (o : Options) (s : State) (uncoded : s.inCode = false) (flowing : s.inPreformatted = false)
    (opened : List Open) (m : Mark) (data : Chars) (regapped : Regapped (shown m data) data) (seen : Seen data) :
    Seen (textOutput s o opened m data) := by
  obtain ⟨c, member, solid⟩ := seen
  have inside : c ∈ Glyph.ink data := List.mem_filter.mpr ⟨member, by rw [solid_uncollapsible c solid]; rfl⟩
  rw [← regapped_gapless _ _ regapped] at inside
  have kept := spelled_kept _ _ _ _ (text_spelled o s uncoded flowing opened m data) c (List.mem_filter.mp inside).1
  exact ⟨c, kept, solid⟩

theorem texts_rendered (o : Options) (s : State) (uncoded : s.inCode = false) (flowing : s.inPreformatted = false)
    (outer : List Open) (isBlock : Bool) (head : Head) (path : List Step) (before : List Marked) (output : Chars)
    (ks : List Marked) (texts : ks.all isText = true) (noted : Noted ks) (muted : Muted output) :
    ∃ out, nodes {} o outer isBlock head path before output ks s = .ok out s ∧ Muted out ∧
      (Seen output ∨ Seen (textContents ks) → Seen out) := by
  induction ks generalizing before output with
  | nil => exact ⟨output, rfl, muted, fun seen => seen.resolve_right fun ⟨c, member, _⟩ => List.not_mem_nil member⟩
  | cons n rest ih =>
      obtain ⟨own, others⟩ := (Bool.and_eq_true _ _).mp texts
      obtain ⟨first, later⟩ := (noted_cons n rest).mp noted
      cases n with
      | text m data =>
          have regapped := (noted_text m data).mp first
          have written := text_muted o s uncoded flowing (⟨output, isBlock⟩ :: outer) m data regapped
          have joined := join_free output _ (spaced_newline _ (muted_spaced _ muted))
            (spaced_newline _ (muted_spaced _ written))
          obtain ⟨out, rendered, clean, appears⟩ := ih (.text m data :: before) _ others later
            (joined ▸ muted_append _ _ muted written)
          refine ⟨out, rendered, clean, fun seen => appears ?_⟩
          rcases seen with earlier | ⟨c, inside, solid⟩
          · exact .inl (seen_join _ _ (.inl earlier))
          · rcases List.mem_append.mp inside with here | there
            · exact .inl (seen_join _ _ (.inr
                (text_seen o s uncoded flowing _ m data regapped ⟨c, here, solid⟩)))
            · exact .inr ⟨c, there, solid⟩
      | comment | element | document => cases own

theorem gaps_muted (s : Chars) (gaps : ∀ c ∈ s, Text.isGap c) (spaced : Spaced s) : Muted s := by
  induction s with
  | nil => exact .nil
  | cons c s ih =>
      obtain ⟨gap, others⟩ := List.forall_mem_cons.mp gaps
      obtain ⟨own, later⟩ := List.forall_mem_cons.mp spaced
      obtain rfl := own (Whitespace.gap_collapsible c gap)
      exact .plain ' ' s (by decide) (fun _ => rfl) (ih others later)

theorem flanking_muted (content : Chars) (muted : Muted content) : Muted (Whitespace.flanking content).1 ∧
    Muted (Whitespace.flanking content).2.1 ∧ Muted (Whitespace.flanking content).2.2 := by
  have whole := flanking_whole content
  obtain ⟨leads, trails⟩ := flanking_gaps content
  generalize Whitespace.flanking content = parts at whole leads trails
  obtain ⟨leading, core, trailing⟩ := parts
  have spaced := muted_spaced content muted
  rw [← whole] at muted spaced
  have rest : Muted (leading ++ core) := by
    refine muted_cut (leading ++ core) trailing muted fun c begins => ?_
    exact Whitespace.collapsible_blank c (Whitespace.gap_collapsible c (trails c (List.mem_of_mem_head? begins)))
  refine ⟨gaps_muted leading leads fun c member => spaced c ?_,
    muted_behind leading core rest (gap_unslashed leading leads), gaps_muted trailing trails fun c member => spaced c ?_⟩
  · simp [member]
  · simp [member]

-- The gaps at the ends of a content are written around what the rule writes, or handed to it with the rest.
theorem replace_around (rule : Rule) (site : Site) (o : Options) (level : site.node.isBlock = false)
    (content preceding : Chars) (muted : Muted content) (seen : Seen content) (s : State) :
    ∃ leading core trailing, Muted leading ∧ Muted core ∧ Seen core ∧ Muted trailing ∧
      ∀ inner u, rule.replacement core site o s = .ok inner u →
        replace rule site o content preceding s = .ok (leading ++ inner ++ trailing) u := by
  cases prose : o.preformattedCode && site.isCode with
  | true =>
      refine ⟨[], content, [], .nil, muted, seen, .nil, fun inner u replaced => ?_⟩
      rw [replace, level, prose, Bool.or_true, if_pos rfl, replaced, List.nil_append, List.append_nil]
  | false =>
      obtain ⟨first, inside, last⟩ := flanking_muted content muted
      refine ⟨_, _, _, ?_, inside, flanking_seen content seen, ?_, fun inner u replaced =>
        replace_inner rule site o level prose content preceding inner s u replaced⟩
      · split
        · exact .nil
        · exact first
      · split
        · exact .nil
        · exact last

-- The collector is asked once, and nothing else changes that reaches the output.
theorem ask_answered (label : Chars) (request : Collector → Added × Collector) (s : State) :
    ∃ u, Link.ask label request s = .ok (request s.references).1.label u ∧ u.references = (request s.references).2 ∧
      u.counters = s.counters := by
  obtain ⟨added, c, answered⟩ : ∃ added c, request s.references = (added, c) := ⟨_, _, rfl⟩
  have asked (u : State) (told : Link.ask label (fun _ => (added, c)) s = .ok added.label u) :
      Link.ask label request s = .ok added.label u := by
    unfold Link.ask at told ⊢
    refine (bind_ok_iff _ _ _ _ _).mpr ⟨s, s, rfl, ?_⟩
    dsimp only
    rw [answered]
    exact told
  rw [answered]
  cases added with
  | renamed fresh => exact ⟨_, asked _ rfl, rfl, rfl⟩
  | reused | asAsked => exact ⟨_, asked _ rfl, rfl, rfl⟩

theorem suffix_answered (style : LabelStyle) (short : style ≠ .full) (cited : Citation) (seen : Seen cited.text)
    (s : State) (label : cited.label = (s.references.add cited.text cited.url cited.title).1.label) :
    ∃ u, Link.referenceSuffix cited.text cited.url cited.title style s = .ok (cited.suffix style) u ∧
      u.references = (s.references.add cited.text cited.url cited.title).2 ∧ u.counters = s.counters := by
  obtain ⟨u, asked, stored, kept⟩ :=
    ask_answered cited.text (fun references => references.add cited.text cited.url cited.title) s
  rw [← label] at asked
  refine ⟨u, ?_, stored, kept⟩
  unfold Link.referenceSuffix
  rw [if_neg (by simpa [short] using (seen_iff cited.text).mp seen), bind_of_ok _ _ s u _ asked]
  unfold Citation.suffix
  split <;> rfl

-- Output that cites some definitions, which the collector holds, and what is written behind the last reference.
structure Cites (o : Options) (c : Collector) (cites : List Citation) (ending output : Chars) (s : State) : Prop where
  output : output = layout o.labelStyle cites ending
  quiet : ∀ cited ∈ cites, cited.Quiet
  ending : Muted ending
  filed : Filed c cites s.references
  uncoded : s.inCode = false
  flowing : s.inPreformatted = false

section

variable (o : Options) (c : Collector) (legible : c.Legible) (cites : List Citation) (ending output : Chars) (s : State)
  (before : Cites o c cites ending output s)

include legible before

theorem cites_spaced : Spaced output := by
  obtain ⟨-, known⟩ := filed_kept c s.references cites before.filed legible fun cited member =>
    (before.quiet cited member).text
  rw [before.output]
  exact layout_spaced _ cites ending before.quiet (fun cited member => (known cited member).1) before.ending

theorem cites_words (words : Chars) (muted : Muted words) :
    Cites o c cites (ending ++ words) (join output words) s := by
  refine ⟨?_, before.quiet, muted_append _ _ before.ending muted, before.filed, before.uncoded, before.flowing⟩
  have spaced := cites_spaced o c legible cites ending output s before
  rw [join_free _ _ (spaced_newline _ spaced) (spaced_newline _ (muted_spaced _ muted)), before.output, layout_ending]

theorem cites_reference (cited : Citation) (leading trailing : Chars) (words : cited.words = ending ++ leading)
    (first : Muted leading) (text : Readable cited.text) (last : Muted trailing)
    (label : cited.label = (s.references.add cited.text cited.url cited.title).1.label) (u : State)
    (stored : u.references = (s.references.add cited.text cited.url cited.title).2) (kept : u.counters = s.counters) :
    Cites o c (cites ++ [cited]) trailing
      (join output (leading ++ ('[' :: cited.text ++ ']' :: cited.suffix o.labelStyle) ++ trailing)) u := by
  have spaced := cites_spaced o c legible cites ending output s before
  have filed := Filed.next cites s.references cited before.filed label
  have quiet : ∀ other ∈ cites ++ [cited], other.Quiet := by
    refine List.forall_mem_append.mpr ⟨before.quiet, List.forall_mem_singleton.mpr ⟨?_, text⟩⟩
    rw [words]
    exact muted_append _ _ before.ending first
  obtain ⟨-, known⟩ := filed_kept c _ _ filed legible fun other member => (quiet other member).text
  have suffix := suffix_spaced o.labelStyle cited (known cited (by simp)).1
  have written : Spaced (leading ++ ('[' :: cited.text ++ ']' :: cited.suffix o.labelStyle) ++ trailing) := by
    refine spaced_append _ _ (spaced_append _ _ (muted_spaced _ first) ?_) (muted_spaced _ last)
    exact solid_spaced '[' _ rfl (spaced_append _ _ (muted_spaced _ text.muted) (solid_spaced ']' _ rfl suffix))
  have code : u.codeDepth = s.codeDepth := congrArg Counters.code kept
  have preformatted : u.preformattedDepth = s.preformattedDepth := congrArg Counters.preformatted kept
  refine ⟨?_, quiet, last, stored ▸ filed, ?_, ?_⟩
  · rw [join_free _ _ (spaced_newline _ spaced) (spaced_newline _ written), before.output, layout_append, layout,
      layout, words, ← layout_ending]
    simp
  · rw [State.inCode, code]
    exact before.uncoded
  · rw [State.inPreformatted, preformatted]
    exact before.flowing

end

def referenceRule : Rule :=
  { name := "reference-link", filter := .holds fun site o => o.linkStyle = .referenced && Link.isLink site,
    replacement := Link.referenceLink }

theorem anchor_found (o : Options) (referenced : o.linkStyle = .referenced) (m : Mark) (a : Attrs) (ks : List Marked)
    (path : List Step) (solid : m.blank = false) : ({} : RuleTable).find ⟨.element m "a" a ks, path⟩ o m.blank =
      .ok (if (attr "href" (.element m "a" a ks)).isEmpty then Rule.default else referenceRule) := by
  cases href : (attr "href" (.element m "a" a ks)).isEmpty with
  | true =>
      have unclaimed := unlisted_unclaimed o m "a" a ks path (by decide) fun _ => List.isEmpty_iff.mp href
      simp [RuleTable.find, solid, unclaimed]
  | false =>
      have link : Link.isLink ⟨.element m "a" a ks, path⟩ = true := by
        rw [Link.isLink, href]
        rfl
      simp [RuleTable.find, solid, RuleTable.inOrder, CommonMark.rules, CommonMark.headingTags, RuleTable.firstClaim,
        Rule.claims, Filter.holds, Site.tag, Node.tag, CommonMark.isCodeBlock, Code.isBlock, CommonMark.isPreformatted,
        Node.isNamed, referenced, link, referenceRule]

section

variable (o : Options) (referenced : o.linkStyle = .referenced) (short : o.labelStyle ≠ .full) (c : Collector)
  (legible : c.Legible)

include referenced short legible

theorem anchor_cites (outer : List Open) (isBlock : Bool) (path : List Step) (output : Chars) (m : Mark) (a : Attrs)
    (ks : List Marked) (solid : m.blank = false) (texts : ks.all isText = true)
    (visible : Text.isBlankText (textContents ks) = false) (noted : Noted ks) (cites : List Citation) (ending : Chars)
    (s : State) (before : Cites o c cites ending output s) :
    ∃ more ending' out u, node {} o outer isBlock path output (.element m "a" a ks) s = .ok out u ∧
      Cites o c (cites ++ more) ending' out u ∧ more.map Citation.target = targets (.element m "a" a ks) := by
  obtain ⟨content, rendered, muted, appears⟩ := texts_rendered o s before.uncoded before.flowing
    (⟨output, isBlock⟩ :: outer) (isBlockTag "a") (.element m "a" a) path [] [] ks texts noted .nil
  have seen := appears (.inr ((seen_iff _).mpr visible))
  have found := anchor_found o referenced m a ks path solid
  rw [anchor_targets m a ks texts]
  cases href : (attr "href" (.element m "a" a ks)).isEmpty with
  | true =>
      rw [href, if_pos rfl] at found
      obtain ⟨leading, core, trailing, first, inside, -, last, written⟩ :=
        replace_around Rule.default ⟨.element m "a" a ks, path⟩ o rfl content output muted seen s
      have replaced := written core s rfl
      refine ⟨[], ending ++ (leading ++ core ++ trailing), _, s,
        node_replaced {} o outer isBlock path output m "a" a ks _ content _ found rfl rfl rendered replaced rfl, ?_, rfl⟩
      rw [List.append_nil]
      exact cites_words o c legible cites ending output s before _
        (muted_append _ _ (muted_append _ _ first inside) last)
  | false =>
      rw [href, if_neg Bool.false_ne_true] at found
      obtain ⟨leading, core, trailing, first, inside, appears, last, written⟩ :=
        replace_around referenceRule ⟨.element m "a" a ks, path⟩ o rfl content output muted seen s
      let url := attr "href" (.element m "a" a ks)
      let title := Link.title? (.element m "a" a ks)
      let cited : Citation := ⟨ending ++ leading, core, (s.references.add core url title).1.label, url, title⟩
      obtain ⟨u, answered, stored, kept⟩ := suffix_answered o.labelStyle short cited appears s rfl
      have replaced := written ('[' :: core ++ ']' :: cited.suffix o.labelStyle) u (bind_of_ok _ _ s u _ answered)
      refine ⟨[cited], trailing, _, u,
        node_replaced {} o outer isBlock path output m "a" a ks _ content _ found rfl rfl rendered replaced rfl, ?_, rfl⟩
      have readable : Readable core := by
        refine ⟨inside, ?_⟩
        rintro rfl
        obtain ⟨c, member, -⟩ := appears
        cases member
      exact cites_reference o c legible cites ending output s before cited leading trailing rfl first readable last
        rfl u stored kept

theorem passage_cites (outer : List Open) (isBlock : Bool) (path : List Step) (output : Chars) (n : Marked)
    (passage : n.isPassage = true) (noted : Noted [n]) (flagged : Flagged n) (cites : List Citation) (ending : Chars)
    (s : State) (before : Cites o c cites ending output s) :
    ∃ more ending' out u, node {} o outer isBlock path output n s = .ok out u ∧
      Cites o c (cites ++ more) ending' out u ∧ more.map Citation.target = n.targets := by
  cases n with
  | text m data =>
      have written := text_muted o s before.uncoded before.flowing (⟨output, isBlock⟩ :: outer) m data
        ((noted_text m data).mp noted)
      refine ⟨[], ending ++ textOutput s o (⟨output, isBlock⟩ :: outer) m data, _, s, rfl, ?_, rfl⟩
      rw [List.append_nil]
      exact cites_words o c legible cites ending output s before _ written
  | element m t a ks =>
      simp only [isPassage, Bool.and_eq_true, beq_iff_eq, Bool.not_eq_true'] at passage
      obtain ⟨⟨rfl, texts⟩, visible⟩ := passage
      have solid : m.blank = false := by
        rw [flagged.1, isSolid, show textContent (.element m "a" a ks) = textContents ks from rfl, visible]
        rfl
      exact anchor_cites o referenced short c legible outer isBlock path output m a ks solid texts visible
        ((noted_element m "a" a ks).mp noted) cites ending s before
  | comment | document => cases passage

theorem passages_cite (outer : List Open) (isBlock : Bool) (head : Head) (path : List Step) (passed : List Marked)
    (output : Chars) (ks : List Marked) (passages : ks.all isPassage = true) (noted : Noted ks)
    (flagged : FlaggedAll ks) (cites : List Citation) (ending : Chars) (s : State)
    (before : Cites o c cites ending output s) :
    ∃ more ending' out u, nodes {} o outer isBlock head path passed output ks s = .ok out u ∧
      Cites o c (cites ++ more) ending' out u ∧ more.map Citation.target = targetsOf ks := by
  induction ks generalizing passed output cites ending s with
  | nil => exact ⟨[], ending, output, s, rfl, by rwa [List.append_nil], rfl⟩
  | cons n rest ih =>
      obtain ⟨own, others⟩ := (Bool.and_eq_true _ _).mp passages
      obtain ⟨first, later⟩ := (noted_cons n rest).mp noted
      obtain ⟨here, middle, out, t, written, cited, named⟩ := passage_cites o referenced short c legible outer isBlock
        (Site.pathTo head path passed rest n) output n own first flagged.1 cites ending s before
      obtain ⟨there, last, final, u, finished, done, targets⟩ :=
        ih (n :: passed) out others later flagged.2 (cites ++ here) middle t cited
      refine ⟨here ++ there, last, final, u, ?_, by rwa [← List.append_assoc], ?_⟩
      · rw [nodes]
        exact (bind_of_ok _ _ s t out written).trans finished
      · rw [List.map_append, named, targets, targetsOf]

end

end Render

end Downmark
