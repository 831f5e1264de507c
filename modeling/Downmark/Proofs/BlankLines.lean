import Downmark.Proofs.EndlessLists
import Downmark.Proofs.NeatOutput
import Downmark.Proofs.PlainElements
import Downmark.Proofs.RenderedTop
import Downmark.Proofs.Sparse
/-!
Blank lines in the output of trees without code, links and images. Main statement: there are never two of them
in a row, as long as emphasis holds no blocks.
-/

set_option autoImplicit false

namespace Downmark

open Node

def delimitedTags : List String := ["em", "i", "strong", "b"]

-- What the nodes of a tree are that has nothing to be kept from being laid out; if it is flat, it has no blocks.
structure Layout {μ : Type} (flat : Bool) (ns : List (Node μ)) : Prop where
  laid : ∀ n ∈ ns, n.isElement = true → n.isSolid = true → Laid n.tag n.attrs
  inline : ∀ n ∈ ns, n.tag ∈ delimitedTags → ∀ below ∈ n.descendants, below.isBlock = false
  flat : flat = true → ∀ n ∈ ns, n.isBlock = false

section

variable {μ ν : Type} (flat : Bool)

theorem layout_part (ns part : List (Node μ)) (within : ∀ n ∈ part, n ∈ ns) (layout : Layout flat ns) :
    Layout flat part :=
  ⟨fun n member => layout.laid n (within n member), fun n member => layout.inline n (within n member),
    fun level n member => layout.flat level n (within n member)⟩

theorem layout_below (m : μ) (t : String) (a : Attrs) (ks : List (Node μ))
    (layout : Layout flat (.element m t a ks :: forest ks)) :
    Layout (flat || delimitedTags.contains t) (forest ks) := by
  obtain ⟨laid, inline, blockless⟩ := layout_part flat _ (forest ks) (fun n => List.mem_cons_of_mem _) layout
  refine ⟨laid, inline, fun level n member => ?_⟩
  rcases (Bool.or_eq_true _ _).mp level with here | delimited
  · exact blockless here n member
  · have named : t ∈ delimitedTags := by simpa using delimited
    exact layout.inline _ List.mem_cons_self named n member

theorem layout_marks (f : μ → ν) (ns : List (Node μ)) : Layout flat (ns.map (mapMarks f)) ↔ Layout flat ns := by
  have block (n : Node μ) : (n.mapMarks f).isBlock = n.isBlock := by rw [isBlock, map_marks_tag, isBlock]
  have attrs (n : Node μ) : (n.mapMarks f).attrs = n.attrs := by cases n <;> rfl
  constructor
  · rintro ⟨laid, inline, level⟩
    simp only [List.forall_mem_map, map_marks_element, map_marks_solid, map_marks_tag, attrs, descendants_marks,
      block] at laid inline level
    exact ⟨laid, inline, level⟩
  · rintro ⟨laid, inline, level⟩
    constructor
    all_goals simp only [List.forall_mem_map, map_marks_element, map_marks_solid, map_marks_tag, attrs,
      descendants_marks, block]
    · exact laid
    · exact inline
    · exact level

end

namespace Render

-- Work that leaves the state as it is, and gives a text with a property unless a marker cannot be written.
def Delivers (P : Chars → Prop) (refused : Prop) (work : Rendering Chars) : Prop := ∀ s,
  (∃ out, work s = .ok out s ∧ P out) ∨ refused ∧ ∃ t, work s = .error .tooManyDigits t

theorem delivers_pure {P : Chars → Prop} {refused : Prop} (out : Chars) (has : P out) :
    Delivers P refused (pure out) :=
  fun _ => .inl ⟨out, rfl, has⟩

theorem delivers_bind {P Q : Chars → Prop} {refused : Prop} (first : Rendering Chars) (next : Chars → Rendering Chars)
    (before : Delivers P refused first) (after : ∀ out, P out → Delivers Q refused (next out)) :
    Delivers Q refused (first >>= next) := by
  intro s
  rcases before s with ⟨out, worked, has⟩ | ⟨reason, t, failed⟩
  · rw [bind_of_ok _ _ _ _ out worked]
    exact after out has s
  · exact .inr ⟨reason, t, bind_of_error _ _ _ t _ failed⟩

theorem delivers_inside {P : Chars → Prop} {refused : Prop} (o : Options) (site : Site) (work : Rendering Chars)
    (endless : needsEndlessMarker site = true → refused) (delivers : Delivers P refused work) :
    Delivers P refused (do
      enter o site
      let out ← work
      leave o site
      pure out) := by
  intro s
  by_cases long : needsEndlessMarker site = true
  · have entering : enter o site s = .error .tooManyDigits s := by rw [enter_eq, if_pos long]
    exact .inr ⟨endless long, s, bind_of_error _ _ _ s _ entering⟩
  · have entering : enter o site s = .ok () (opened o site s) := by rw [enter_eq, if_neg long]
    rw [bind_of_ok _ _ _ _ () entering]
    rcases delivers (opened o site s) with ⟨out, worked, has⟩ | ⟨reason, t, failed⟩
    · rw [bind_of_ok _ _ _ _ out worked, bind_of_ok _ _ _ _ () (leave_opened o site s)]
      exact .inl ⟨out, rfl, has⟩
    · exact .inr ⟨reason, t, bind_of_error _ _ _ t _ failed⟩

-- What the rule of an element makes of its content.
inductive Made (block : Bool) (content written : Chars) : Prop where
  | block (isBlock : block = true) (sparse : Sparse (core written))
  | same (whole : written = content)
  | sparse (sparse : Sparse written)

section

variable (site : Site) (o : Options) (content : Chars)

theorem laid_unnamed (laid : Laid site.tag site.node.attrs) (name : String) (listed : name ∈ unlaidTags) :
    site.node.isNamed name = false := by
  obtain ⟨n, path⟩ := site
  cases n with
  | text | comment | document => rfl
  | element m t a ks =>
      have other : t ≠ name := fun same => laid.other (same ▸ listed)
      simpa [isNamed] using other

theorem laid_no_link (laid : Laid site.tag site.node.attrs) : Link.isLink site = false := by
  obtain ⟨n, path⟩ := site
  cases n with
  | text | comment | document => rfl
  | element m t a ks =>
      by_cases anchor : t = "a"
      · simpa [Link.isLink, isNamed, anchor, Node.attr, Node.attr?, Node.attrs] using laid.targetless anchor
      · simp [Link.isLink, isNamed, anchor]

theorem marker_line (tidy : site.node.mark.Tidy) : '\n' ∉ Block.markerOf o site := by
  unfold Block.markerOf
  cases noted : site.node.mark.marker with
  | none => exact (of_item_marker o site).line
  | some marker => exact (tidy.marker marker noted).line

theorem list_core (s : State) (airy : Sparse (core content)) :
    ∃ written, Block.list content site o s = .ok written s ∧ Sparse (core written) := by
  refine ⟨_, rfl, ?_⟩
  have below : core ('\n' :: content) = core content := core_front content ['\n'] (by simp [Text.isNewline])
  dsimp only
  split
  · split
    · rwa [below]
    · rwa [core_apart]
  · rwa [core_apart]

theorem list_item_sparse (s : State) (tidy : site.node.mark.Tidy) (airy : Sparse (core content)) :
    ∃ written, Block.listItem content site o s = .ok written s ∧ Sparse written := by
  refine ⟨_, rfl, ?_⟩
  have item := item_sparse (Block.markerOf o site) content (marker_line site o tidy) airy
  dsimp only
  split
  · rename_i open_
    refine final_newline_sparse _ ?_ item
    have last := ((Bool.and_eq_true _ _).mp open_).2
    generalize (Block.itemText (Block.markerOf o site) content).getLast? = c at last
    cases c with
    | none => rfl
    | some c => simpa [Text.isNewline] using last
  · exact item

theorem listed_made (laid : Laid site.tag site.node.attrs) (tidy : site.node.mark.Tidy) (airy : Sparse (core content))
    (level : site.tag ∈ delimitedTags → Sparse content) (s : State) :
    ∀ rule ∈ CommonMark.rules, rule.claims site o = .ok true →
      ∃ written, rule.replacement content site o s = .ok written s ∧ Made site.node.isBlock content written := by
  have pre := laid_unnamed site laid "pre" (by decide)
  have block : Code.isBlock site.node = false := by rw [Code.isBlock, pre, Bool.false_and]
  have link := laid_no_link site laid
  simp only [CommonMark.rules, List.forall_mem_cons]
  refine ⟨?paragraph, ?lineBreak, ?heading, ?quote, ?list, ?item, ?indented, ?fenced, ?preformatted, ?thematic, ?inline,
    ?reference, ?emphasis, ?strong, ?code, ?image, by simp⟩
  case paragraph => exact fun claims =>
    ⟨_, rfl, .block (named_block site o _ ["p"] rfl (by decide) claims) (by rwa [core_apart])⟩
  case lineBreak =>
    refine fun _ => ⟨_, rfl, .sparse (sparse_free_append _ _ ?_ (sparse_short _ (by simp)))⟩
    cases o.lineBreak <;> decide
  case heading => exact fun claims =>
    ⟨_, rfl, .block (named_block site o _ CommonMark.headingTags rfl (by decide) claims)
      (by rw [core_apart]; exact sparse_part _ _ (core_part _) (heading_sparse _ _ content))⟩
  case quote => exact fun claims =>
    ⟨_, rfl, .block (named_block site o _ ["blockquote"] rfl (by decide) claims)
      (by rw [core_apart]; exact sparse_part _ _ (core_part _) (quote_sparse content))⟩
  case list =>
    intro claims
    obtain ⟨written, worked, sparse⟩ := list_core site o content s airy
    exact ⟨written, worked, .block (named_block site o _ ["ul", "ol"] rfl (by decide) claims) sparse⟩
  case item =>
    intro _
    obtain ⟨written, worked, sparse⟩ := list_item_sparse site o content s tidy airy
    exact ⟨written, worked, .sparse sparse⟩
  case thematic => exact fun claims =>
    ⟨_, rfl, .block (named_block site o _ ["hr"] rfl (by decide) claims)
      (by rw [core_apart]; exact sparse_part _ _ (core_part _) (sparse_free _ (by cases o.thematicBreak <;> decide)))⟩
  case emphasis =>
    intro claims
    have named : site.tag ∈ delimitedTags := by
      have either : site.tag ∈ ["em", "i"] := by simpa [Rule.claims] using claims
      exact (by decide : ∀ name ∈ ["em", "i"], name ∈ delimitedTags) _ either
    exact ⟨_, rfl, .sparse (delimited_sparse _ content _ _ (by cases o.emDelimiter <;> decide) (level named))⟩
  case strong =>
    intro claims
    have named : site.tag ∈ delimitedTags := by
      have either : site.tag ∈ ["strong", "b"] := by simpa [Rule.claims] using claims
      exact (by decide : ∀ name ∈ ["strong", "b"], name ∈ delimitedTags) _ either
    exact ⟨_, rfl, .sparse (delimited_sparse _ content _ _ (by cases o.strongDelimiter <;> decide) (level named))⟩
  case indented | fenced | preformatted | inline | reference =>
    intro claims
    simp [Rule.claims, Filter.holds, CommonMark.isCodeBlock, CommonMark.isPreformatted, block, pre, link] at claims
  case code =>
    intro claims
    have code := laid_unnamed site laid "code" (by decide)
    simp [Rule.claims, Filter.holds, Inline.isCode, code] at claims
  case image =>
    intro claims
    have named : site.tag = "img" := by simpa [Rule.claims] using claims
    exact absurd (named ▸ by decide) laid.other

theorem rule_made (blank : Bool) (laid : blank = false → Laid site.tag site.node.attrs)
    (tidy : site.node.mark.Tidy) (airy : Sparse (core content)) (level : site.tag ∈ delimitedTags → Sparse content)
    (rule : Rule) (found : ({} : RuleTable).find site o blank = .ok rule) (s : State) :
    ∃ written, rule.replacement content site o s = .ok written s ∧ Made site.node.isBlock content written := by
  rcases RuleTable.find_cases {} site o blank rule found with ⟨-, rfl⟩ | ⟨solid, listed, claims⟩ | ⟨-, rfl, -⟩
  · refine ⟨_, rfl, .sparse ?_⟩
    dsimp only
    split
    · exact sparse_short _ (by simp)
    · exact sparse_short _ (by simp)
  · rcases List.mem_append.mp listed with builtin | removed
    · exact listed_made site o content (laid solid) tidy airy level s rule (by simpa using builtin) claims
    · obtain ⟨tag, member, rfl⟩ := List.mem_map.mp removed
      have named : site.tag = tag := by simpa [Rule.claims, Rule.remove] using claims
      have refused : ∀ name ∈ removedTags, name ∈ unlaidTags := by decide
      exact absurd (named ▸ refused tag member) (laid solid).other
  · cases block : site.node.isBlock with
    | true =>
        refine ⟨_, rfl, .block rfl ?_⟩
        dsimp only
        rwa [block, if_pos rfl, core_apart]
    | false =>
        refine ⟨_, rfl, .same ?_⟩
        dsimp only
        rw [block, if_neg Bool.false_ne_true]

end

theorem gaps_line (gaps : Chars) (all : ∀ c ∈ gaps, Text.isGap c) : '\n' ∉ gaps :=
  fun member => absurd (all _ member) (by decide)

-- Gaps that are left out at the ends leave a part of the content.
theorem framed_part (content preceding : Chars) (drop : Bool) :
    ((if endsInGap preceding then [] else (Whitespace.flanking content).1) ++ (Whitespace.flanking content).2.1 ++
      if drop then [] else (Whitespace.flanking content).2.2) <:+: content := by
  refine ⟨if endsInGap preceding then (Whitespace.flanking content).1 else [],
    if drop then (Whitespace.flanking content).2.2 else [], ?_⟩
  have whole := flanking_whole content
  split_ifs
  · simpa using whole
  · simpa using whole
  · simpa using whole
  · simpa using whole

theorem framed_sparse (content preceding written : Chars) (drop : Bool) (sparse : Sparse written) :
    Sparse ((if endsInGap preceding then [] else (Whitespace.flanking content).1) ++ written ++
      if drop then [] else (Whitespace.flanking content).2.2) := by
  obtain ⟨leading, trailing⟩ := flanking_gaps content
  refine sparse_append_free _ _ ?_ (sparse_free_append _ _ ?_ sparse)
  · split
    · exact List.not_mem_nil
    · exact gaps_line _ trailing
  · split
    · exact List.not_mem_nil
    · exact gaps_line _ leading

section

variable (o : Options) (flowing : o.preformattedCode = false)

include flowing

theorem replace_airy (flat inner : Bool) (rule : Rule) (site : Site) (content preceding : Chars)
    (blockless : flat = true → site.node.isBlock = false) (airy : Airy inner content)
    (deeper : flat = true → inner = true)
    (made : ∀ part, part <:+: content → ∀ s, ∃ written, rule.replacement part site o s = .ok written s ∧
      Made site.node.isBlock part written) (s : State) :
    ∃ written, replace rule site o content preceding s = .ok written s ∧ Airy flat written := by
  have whole : Airy flat content := by
    cases flat with
    | true =>
        obtain rfl := deeper rfl
        exact airy
    | false => exact airy_core inner content airy
  cases block : site.node.isBlock with
  | true =>
      obtain ⟨written, worked, outcome⟩ := made content List.infix_rfl s
      refine ⟨written, by simp [replace, block, worked], ?_⟩
      cases outcome with
      | block _ sparse =>
          cases flat with
          | true => exact absurd (block.symm.trans (blockless rfl)) (by simp)
          | false => exact sparse
      | same same => exact same ▸ whole
      | sparse sparse => exact airy_sparse flat written sparse
  | false =>
      have part : (Whitespace.flanking content).2.1 <:+: content :=
        ⟨(Whitespace.flanking content).1, (Whitespace.flanking content).2.2, flanking_whole content⟩
      obtain ⟨written, worked, outcome⟩ := made _ part s
      let drop := !(Whitespace.flanking content).2.2.isEmpty && s.nextStartsWithSpace o site
      refine ⟨(if endsInGap preceding then [] else (Whitespace.flanking content).1) ++ written ++
        if drop then [] else (Whitespace.flanking content).2.2, ?_, ?_⟩
      · unfold replace
        rw [block, flowing, Bool.false_and, Bool.or_false, if_neg Bool.false_ne_true]
        exact bind_of_ok _ _ _ _ written worked
      · cases outcome with
        | block isBlock => simp [block] at isBlock
        | same same => exact airy_part flat _ content (same ▸ framed_part content preceding drop) whole
        | sparse sparse => exact airy_sparse flat _ (framed_sparse content preceding written drop sparse)

theorem text_line (s : State) (opened : List Open) (m : Mark) (data : Chars) (tidy : m.Tidy) :
    '\n' ∉ textOutput s o opened m data := by
  have spaced : Spaced (s.textOf o m data) := by
    unfold State.textOf
    split
    · rename_i shown noted
      exact tidy.shown shown noted
    · rw [flowing, Bool.false_and, if_neg Bool.false_ne_true]
      exact Whitespace.squeeze_spaced false data
  have escaped (special w : Chars) (spelled : Escape.Spelled special true (s.textOf o m data) w) : '\n' ∉ w := by
    intro member
    rcases Escape.spelled_mem special true _ w spelled '\n' member with inside | slash
    · exact spaced_newline _ spaced inside
    · cases slash
  unfold textOutput
  dsimp only
  split
  · exact spaced_newline _ spaced
  · split
    · exact escaped _ _ (Escape.preformatted_spelled _ _)
    · exact escaped _ _ (Escape.markdown_spelled _ _)

theorem element_airy (flat : Bool) (refused : Prop) (outer : List Open) (isBlock : Bool) (path : List Step)
    (output : Chars) (m : Mark) (t : String) (a : Attrs) (ks : List Marked) (tidy : m.Tidy)
    (flagged : m.blank = !isSolid (.element m t a ks)) (layout : Layout flat (.element m t a ks :: forest ks))
    (endless : needsEndlessMarker ⟨.element m t a ks, path⟩ = true → refused)
    (below : ∀ outer isBlock, Delivers (Airy (flat || delimitedTags.contains t)) refused
      (nodes {} o outer isBlock (.element m t a) path [] [] ks)) :
    Delivers (Airy flat) refused (elementText {} o outer isBlock path output m t a ks) := by
  obtain ⟨rule, found⟩ := rule_found o ⟨.element m t a ks, path⟩ m.blank
  have laid (solid : m.blank = false) : Laid t a :=
    layout.laid _ List.mem_cons_self rfl (by simpa [solid] using flagged)
  rw [element_found {} o outer isBlock path output m t a ks rule found]
  refine delivers_inside o _ _ endless (delivers_bind (P := Airy (flat || delimitedTags.contains t)) _ _ ?_ ?_)
  · unfold contentText
    split
    · exact below _ _
    · exact delivers_pure [] (airy_nil _)
  · intro content airy s
    refine .inl (replace_airy o flowing flat _ rule ⟨.element m t a ks, path⟩ content output
      (fun level => layout.flat level _ List.mem_cons_self) airy (fun level => by simp [level]) ?_ s)
    intro part within s
    have thin := airy_part _ part content within airy
    refine rule_made ⟨.element m t a ks, path⟩ o part m.blank laid tidy (airy_core _ part thin) (fun named => ?_)
      rule found s
    have delimited : (flat || delimitedTags.contains t) = true := by
      have named : t ∈ delimitedTags := named
      simp [named]
    rwa [delimited] at thin

end

mutual

theorem node_airy (o : Options) (flowing : o.preformattedCode = false) (flat : Bool) (refused : Prop)
    (outer : List Open) (isBlock : Bool) (path : List Step) (output : Chars) (n : Marked) (tidy : Tidy n)
    (flagged : Flagged n) (layout : Layout flat (n :: n.descendants))
    (endless : ∀ site ∈ Site.within path n, needsEndlessMarker site = true → refused) (airy : Airy flat output) :
    Delivers (Airy flat) refused (node {} o outer isBlock path output n) := by
  cases n with
  | text m data =>
      intro s
      refine .inl ⟨_, rfl, airy_join flat output _ airy (airy_sparse flat _ (sparse_free _ ?_))⟩
      exact text_line o flowing s _ m data tidy
  | comment m data | document m ks => exact delivers_pure output airy
  | element m t a ks =>
      rw [node_element]
      refine delivers_bind (P := Airy flat) _ _ ?_ fun written sparse =>
        delivers_pure _ (airy_join flat output written airy sparse)
      refine element_airy o flowing flat refused outer isBlock path output m t a ks tidy.1 flagged.1 layout
        (endless _ List.mem_cons_self) fun outer isBlock => ?_
      exact nodes_airy o flowing _ refused outer isBlock (.element m t a) path [] [] ks tidy.2 flagged.2
        (layout_below flat m t a ks layout) (fun site member => endless site (List.mem_cons_of_mem _ member))
        (airy_nil _)

theorem nodes_airy (o : Options) (flowing : o.preformattedCode = false) (flat : Bool) (refused : Prop)
    (outer : List Open) (isBlock : Bool) (head : Head) (path : List Step) (before : List Marked) (output : Chars)
    (ks : List Marked) (tidy : TidyAll ks)
    (flagged : FlaggedAll ks) (layout : Layout flat (forest ks))
    (endless : ∀ site ∈ Site.among head path before ks, needsEndlessMarker site = true → refused)
    (airy : Airy flat output) :
    Delivers (Airy flat) refused (nodes {} o outer isBlock head path before output ks) := by
  cases ks with
  | nil => exact delivers_pure output airy
  | cons n rest =>
      rw [nodes]
      refine delivers_bind (P := Airy flat) _ _ ?_ fun out sparse => ?_
      · exact node_airy o flowing flat refused outer isBlock _ output n tidy.1 flagged.1
          (layout_part flat _ _ (fun below member => List.mem_append_left (forest rest) member) layout)
          (fun site member => endless site (List.mem_append_left _ member)) airy
      · exact nodes_airy o flowing flat refused outer isBlock head path _ out rest tidy.2 flagged.2
          (layout_part flat _ _ (fun below member => by simp [forest, member]) layout)
          (fun site member => endless site (List.mem_append_right _ member)) sparse

end

-- The elements that are told apart by their names, and all others that no rule writes in a way of its own.
def laidTags : List String :=
  ["p", "br", "h1", "h2", "h3", "h4", "h5", "h6", "blockquote", "ul", "ol", "li", "hr", "em", "i", "strong", "b"]

def LaidOut (o : Options) (site : Site) : Prop := site.node.isElement = true → site.tag ∈ laidTags ∨
  ({} : RuleTable).find site o site.node.isBlank = .ok Rule.default ∨
  ({} : RuleTable).find site o site.node.isBlank = .ok Rule.blank

theorem blank_not_found (o : Options) (site : Site) : ({} : RuleTable).find site o false ≠ .ok Rule.blank := by
  intro found
  have unlisted : ∀ rule ∈ ({} : RuleTable).inOrder, rule.name ≠ Rule.blank.name := by
    simp [RuleTable.inOrder, CommonMark.rules, Rule.removals, removedTags, Rule.blank]
  rcases RuleTable.find_cases {} site o false _ found with ⟨solid, -⟩ | ⟨-, listed, -⟩ | ⟨-, same, -⟩
  · cases solid
  · exact unlisted _ listed rfl
  · exact absurd (congrArg Rule.name same) (by decide)

theorem solid_laid (o : Options) (m : Mark) (t : String) (a : Attrs) (ks : List Marked) (path : List Step)
    (outside : Site.parentTag? ⟨.element m t a ks, path⟩ = some "pre" → isSolid (.element m t a ks) = false)
    (out : LaidOut o ⟨.element m t a ks, path⟩) (solid : isSolid (.element m t a ks) = true) : Laid t a := by
  have seen : isBlank (.element m t a ks) = false := by rw [element_blank _ rfl, solid]; rfl
  have apart : Site.parentTag? ⟨.element m t a ks, path⟩ ≠ some "pre" := fun inside => by
    rw [outside inside] at solid
    cases solid
  rcases out rfl with listed | default | blank
  · have named : ∀ name ∈ laidTags, name ∉ unlaidTags ∧ name ≠ "a" := by decide
    exact ⟨(named t listed).1, fun anchor => absurd anchor (named t listed).2⟩
  · rw [seen] at default
    exact default_laid o m t a ks path (absurd · apart) default
  · rw [seen] at blank
    exact absurd blank (blank_not_found o _)

mutual

theorem within_laid (o : Options) (path : List Step) (n : Marked)
    (outside : Site.parentTag? ⟨n, path⟩ = some "pre" → n.isSolid = false)
    (out : ∀ site ∈ Site.within path n, LaidOut o site) :
    ∀ below ∈ n :: n.descendants, below.isElement = true → below.isSolid = true → Laid below.tag below.attrs := by
  cases n with
  | text m data | comment m data =>
      intro below member element
      obtain rfl := List.mem_singleton.mp member
      cases element
  | document m ks =>
      intro below member element
      rcases List.mem_cons.mp member with rfl | inside
      · cases element
      · exact among_laid o (.document m) path [] ks (by simp [Head.tag])
          (fun site member => out site (List.mem_cons_of_mem _ member)) below inside element
  | element m t a ks =>
      have here := solid_laid o m t a ks path outside (out _ List.mem_cons_self)
      intro below member element solid
      rcases List.mem_cons.mp member with rfl | inside
      · exact here solid
      · refine among_laid o (.element m t a) path [] ks (fun named => ?_)
          (fun site member => out site (List.mem_cons_of_mem _ member)) below inside element solid
        have hidden : isSolid (.element m t a ks) = false := by
          rw [Bool.eq_false_iff]
          intro seen
          obtain rfl : t = "pre" := named
          exact absurd (here seen).other (by decide)
        rw [element_solid, Bool.or_eq_false_iff] at hidden
        exact hidden.2

theorem among_laid (o : Options) (head : Head) (path : List Step) (before ks : List Marked)
    (outside : head.tag = "pre" → ks.any isSolid = false)
    (out : ∀ site ∈ Site.among head path before ks, LaidOut o site) :
    ∀ below ∈ forest ks, below.isElement = true → below.isSolid = true → Laid below.tag below.attrs := by
  cases ks with
  | nil => simp [forest]
  | cons n rest =>
      have hidden (inside : head.tag = "pre") : n.isSolid = false ∧ rest.any isSolid = false := by
        simpa [Bool.or_eq_false_iff] using outside inside
      have around (inside : Site.parentTag? ⟨n, Site.pathTo head path before rest n⟩ = some "pre") :
          n.isSolid = false := by
        refine (hidden ?_).1
        unfold Site.pathTo at inside
        split at inside
        · cases head with
          | element m t a => simpa [Site.parentTag?, Head.tag] using inside
          | document m => simp [Site.parentTag?] at inside
        · simp [Site.parentTag?] at inside
      intro below member
      rcases List.mem_append.mp (show below ∈ (n :: n.descendants) ++ forest rest from member) with here | later
      · exact within_laid o _ n around (fun site member => out site (List.mem_append_left _ member)) below here
      · exact among_laid o head path _ rest (fun inside => (hidden inside).2)
          (fun site member => out site (List.mem_append_right _ member)) below later

end

-- Emphasis of either kind has no blocks in it.
def InlineEmphasis (tree : Tree) : Prop :=
  ∀ n ∈ tree :: tree.descendants, n.tag ∈ delimitedTags → ∀ below ∈ n.descendants, below.isBlock = false

theorem tree_layout (o : Options) (tree : Tree) (out : ∀ site ∈ (Site.ofTree tree).all, LaidOut o site)
    (inline : InlineEmphasis tree) : Layout false (tree :: tree.descendants) := by
  have laid := within_laid o [] (unmark tree) (fun inside => by cases inside) out
  refine ⟨fun n member element solid => ?_, inline, fun level => by cases level⟩
  have marked : unmark n ∈ unmark tree :: (unmark tree).descendants := by
    rw [unmark, unmark, descendants_marks, ← List.map_cons]
    exact List.mem_map_of_mem member
  have here := laid (unmark n) marked (by rwa [unmark, map_marks_element]) (by rwa [unmark, map_marks_solid])
  cases n <;> exact here

theorem prepared_layout (o : Options) (n : Tree) (layout : Layout false (n :: n.descendants)) :
    Layout false (prepare o (unmark n) :: (prepare o (unmark n)).descendants) := by
  have bared : (prepare o (unmark n)).mapMarks (fun _ => ()) = n := (prepare_bare o _).trans (bare_marked _ n)
  rw [← layout_marks false fun _ => (), List.map_cons, ← descendants_marks, bared]
  exact layout

theorem children_airy (o : Options) (flowing : o.preformattedCode = false) (n : Tree) (head : Head) (path : List Step)
    (ks : List Marked) (shape : prepare o (unmark n) = head.close ks) (layout : Layout false (n :: n.descendants)) :
    Delivers (Airy false) (prepare o (unmark n)).HasEndlessList (nodes {} o [] true head path [] [] ks) := by
  have tidy := prepared_tidy o _ (unmarked_tidy n)
  have flagged := prepared_flags o (unmark n)
  have laid := prepared_layout o n layout
  have endless (site : Site) (member : site ∈ Site.among head path [] ks) (long : needsEndlessMarker site = true) :
      (prepare o (unmark n)).HasEndlessList := by
    rw [shape]
    exact endless_among head path [] ks site member long
  rw [unmark] at shape
  rw [shape] at tidy
  rw [unmark, shape] at flagged laid
  have below : Layout false (forest ks) := by
    cases head <;> exact layout_part false _ _ (fun below => List.mem_cons_of_mem _) laid
  cases head with
  | element m t a =>
      exact nodes_airy o flowing false _ [] true _ path [] [] ks tidy.2 flagged.2 below endless (airy_nil false)
  | document m => exact nodes_airy o flowing false _ [] true _ path [] [] ks tidy flagged below endless (airy_nil false)

theorem root_airy (o : Options) (flowing : o.preformattedCode = false) (tree : Tree)
    (layout : Layout false (tree :: tree.descendants)) :
    Delivers (Airy false) tree.HasEndlessList (root {} o (Site.ofTree tree)) := by
  have long (n : Tree) (member : n ∈ tree :: tree.descendants) (endless : (prepare o (unmark n)).HasEndlessList) :
      tree.HasEndlessList := by
    rw [prepare_endless, ← bare_endless, unmark, bare_marked] at endless
    exact endless_inside tree n member endless
  have alone : Delivers (Airy false) tree.HasEndlessList (node {} o [] true [] [] (prepare o (unmark tree))) := by
    refine node_airy o flowing false _ [] true [] [] _ (prepared_tidy o _ (unmarked_tidy tree)) (prepared_flags o _)
      (prepared_layout o tree layout) (fun site member endless => ?_) (airy_nil false)
    rcases endless_within [] _ site member endless with inside | outside
    · exact long tree List.mem_cons_self inside
    · cases outside
  cases tree with
  | text | comment | element => exact alone
  | document m ks =>
      obtain ⟨top, head, path, below, rendered⟩ := document_top o m ks
      have inside := layout_part false _ _ (inside_below _ top rendered.inside) layout
      have airy := children_airy o flowing top head path below rendered.shape inside
      rw [rendered.rendered]
      intro s
      exact (airy s).imp_right fun missed => ⟨long top rendered.inside missed.1, missed.2⟩

theorem trimmed_sparse (output : Chars) (sparse : Sparse (core output)) : Sparse (trimmed output) := by
  obtain ⟨run, whole, -⟩ := Text.trim_end_run Text.isBlank (Text.trimStart isLineStart output)
  have first := Text.drop_stop isLineStart output
  have ended := newline_blank _ (Text.trim_end_stop Text.isBlank (Text.trimStart isLineStart output))
  have part : trimmed output <:+: output :=
    List.IsInfix.trans ⟨[], run, whole.symm⟩ (List.dropWhile_suffix _).isInfix
  refine sparse_part _ _ (core_holds _ output ?_ ended part) sparse
  change (Text.trimEnd Text.isBlank (Text.trimStart isLineStart output)).head?.any Text.isNewline = false
  cases kept : Text.trimEnd Text.isBlank (Text.trimStart isLineStart output) with
  | nil => rfl
  | cons c rest =>
      have start : isLineStart c = false := by
        rw [← Text.trimStart, whole, kept] at first
        exact first
      have newline : c ≠ '\n' := by
        rintro rfl
        cases start
      simpa [Text.isNewline] using newline

theorem blank_lines_single (o : Options) (flowing : o.preformattedCode = false) (tree : Tree)
    (out : ∀ site ∈ (Site.ofTree tree).all, LaidOut o site) (inline : InlineEmphasis tree) :
    (∃ text, conversion o tree = .ok text ∧ ¬ ['\n', '\n', '\n'] <:+: text) ∨
      (conversion o tree = .error .tooManyDigits ∧ tree.HasEndlessList) := by
  rcases root_airy o flowing tree (tree_layout o tree out inline) (logged tree) with
    ⟨output, worked, airy⟩ | ⟨endless, t, failed⟩
  · exact .inl ⟨_, conversion_ok o tree output worked, trimmed_sparse output airy⟩
  · exact .inr ⟨conversion_error o tree _ t failed, endless⟩

-- Three blocks in a row bring blank lines of their own, and line breaks stand side by side in the emphasis.
def crowdedBlocks : Tree :=
  .document () [
    .element () "ul" [] [
      .element () "li" [] [
        .element () "p" [] [.text () ['a']], .element () "div" [] [], .element () "p" [] [.text () ['b']]]],
    .element () "em" [] [.text () ['c'], .element () "br" [] [], .element () "br" [] [], .text () ['d']]]

theorem crowded_blocks_apart :
    (∀ site ∈ (Site.ofTree crowdedBlocks).all, LaidOut {} site) ∧ InlineEmphasis crowdedBlocks ∧
      ∃ text, conversion {} crowdedBlocks = .ok text ∧ ¬ ['\n', '\n', '\n'] <:+: text := by
  have listed : ∀ site ∈ (Site.ofTree crowdedBlocks).all,
      site.node.isElement = true → site.tag ∈ laidTags ∨ site.node.isBlank = true := by decide +kernel
  have out : ∀ site ∈ (Site.ofTree crowdedBlocks).all, LaidOut {} site := fun site member element =>
    (listed site member element).imp_right fun blank => .inr (by rw [blank]; rfl)
  have inline : InlineEmphasis crowdedBlocks := by
    unfold InlineEmphasis
    decide +kernel
  have finite : ¬ crowdedBlocks.HasEndlessList := by
    simp [crowdedBlocks, HasEndlessList, descendants, forest, isEndlessList, isNamed]
  have single := blank_lines_single {} rfl crowdedBlocks out inline
  exact ⟨out, inline, single.resolve_right fun refused => finite refused.2⟩

end Render

end Downmark
