import Downmark.Proofs.OpenRows
import Downmark.Proofs.ReliableRules
/-!
Markup within lines around blank lines. The rules for links, emphasized text and struck text put their markers around
whatever was written for the children. Main statement: what stands between the markers has a blank line exactly if the
row of the children is severed.
-/

set_option autoImplicit false

namespace Downmark.Render

open Node Whitespace

def enclosingNames : List String := ["inline-link", "reference-link", "emphasis", "strong", "strikethrough"]

/-- What is written with markers around some content. Where nothing of the content is seen, emphasis leaves it out, and
struck text goes without markers. -/
inductive Enclosed (content : Chars) : Chars → Prop where
  | unseen (blank : Text.isBlankText content = true) (written : Chars) (bare : written = [] ∨ written = content) :
      Enclosed content written
  | linked (behind : Chars) : Enclosed content ('[' :: content ++ ']' :: behind)
  | delimited (delimiter : Chars)
      (known : delimiter ∈ [['*'], ['_'], ['*', '*'], ['_', '_'], ['~', '~']]) :
      Enclosed content (delimiter ++ content ++ delimiter)

theorem delimited_enclosed (text content preferred alternate : Chars)
    (first : preferred ∈ [['*'], ['_'], ['*', '*'], ['_', '_'], ['~', '~']])
    (other : alternate ∈ [['*'], ['_'], ['*', '*'], ['_', '_'], ['~', '~']]) :
    Enclosed content (Inline.delimited text content preferred alternate) := by
  unfold Inline.delimited
  split
  · rename_i blank
    exact .unseen blank [] (.inl rfl)
  · refine .delimited _ ?_
    unfold Inline.chooseDelimiter
    split_ifs
    · exact first
    · exact other
    · exact first

-- The rule of an element within a line that is asked when the children are written, and never fails.
def Encloses (o : Options) (site : Site) (rule : Rule) : Prop :=
  site.node.isBlock = false ∧ rule.rendersChildren = true ∧
    ∀ content s, ∃ inner u, rule.replacement content site o s = .ok inner u ∧ Enclosed content inner

section

variable (o : Options) (m : Mark) (t : String) (a : Attrs) (ks : List Marked) (path : List Step)

theorem listed_encloses : ∀ rule ∈ CommonMark.rules, rule.claims ⟨.element m t a ks, path⟩ o = .ok true →
    rule.name ∈ enclosingNames → Encloses o ⟨.element m t a ks, path⟩ rule := by
  have other (rule : Rule) (apart : rule.name ∉ enclosingNames) : rule.claims ⟨.element m t a ks, path⟩ o = .ok true →
      rule.name ∈ enclosingNames → Encloses o ⟨.element m t a ks, path⟩ rule := fun _ named => absurd named apart
  simp only [CommonMark.rules, List.forall_mem_cons]
  refine ⟨other _ (by decide), other _ (by decide), other _ (by decide), other _ (by decide), other _ (by decide),
    other _ (by decide), other _ (by decide), other _ (by decide), other _ (by decide), other _ (by decide), ?inline,
    ?reference, ?emphasis, ?strong, other _ (by decide), other _ (by decide), by simp⟩
  case inline =>
    intro claims _
    obtain ⟨-, link⟩ := (Bool.and_eq_true _ _).mp (Except.ok.inj claims)
    have anchor : t = "a" := by simpa [isNamed] using ((Bool.and_eq_true _ _).mp link).1
    exact ⟨anchor ▸ rfl, rfl, fun content s => ⟨_, s, rfl, .linked _⟩⟩
  case reference =>
    intro claims _
    obtain ⟨-, link⟩ := (Bool.and_eq_true _ _).mp (Except.ok.inj claims)
    have anchor : t = "a" := by simpa [isNamed] using ((Bool.and_eq_true _ _).mp link).1
    refine ⟨anchor ▸ rfl, rfl, fun content s => ?_⟩
    obtain ⟨suffix, u, made⟩ := reference_suffix_works content (Node.attr "href" (.element m t a ks : Marked))
      (Link.title? (.element m t a ks : Marked)) o.labelStyle s
    exact ⟨_, u, (bind_ok_iff _ _ _ _ _).mpr ⟨suffix, u, made, rfl⟩, .linked suffix⟩
  case emphasis =>
    intro claims _
    have tag := claimed_named o m t a ks path _ ["em", "i"] rfl claims
    have level := (by decide : ∀ name ∈ ["em", "i"], isBlockTag name = false) t tag
    refine ⟨level, rfl, fun content s => ⟨_, s, rfl, delimited_enclosed _ _ _ _ ?_ ?_⟩⟩
    · cases o.emDelimiter <;> decide
    · cases o.emDelimiter <;> decide
  case strong =>
    intro claims _
    have tag := claimed_named o m t a ks path _ ["strong", "b"] rfl claims
    have level := (by decide : ∀ name ∈ ["strong", "b"], isBlockTag name = false) t tag
    refine ⟨level, rfl, fun content s => ⟨_, s, rfl, delimited_enclosed _ _ _ _ ?_ ?_⟩⟩
    · cases o.strongDelimiter <;> decide
    · cases o.strongDelimiter <;> decide

theorem ruled_encloses (rule : Rule) (ruled : Ruled ⟨.element m t a ks, path⟩ o rule)
    (named : rule.name ∈ enclosingNames) : Encloses o ⟨.element m t a ks, path⟩ rule := by
  cases ruled with
  | struck tag =>
      have level := (by decide : ∀ name ∈ struckTags, isBlockTag name = false) t tag
      refine ⟨level, rfl, fun content s => ⟨_, s, rfl, ?_⟩⟩
      dsimp only
      split
      · rename_i blank
        exact .unseen blank content (.inr rfl)
      · exact .delimited ['~', '~'] (by decide)
  | listed rule listed claims => exact listed_encloses o m t a ks path rule listed claims named
  | removed tag listed =>
      simp only [removedTags, List.mem_cons, List.not_mem_nil, or_false] at listed
      rcases listed with rfl | rfl | rfl | rfl <;> exact absurd named (by decide)
  | other => exact absurd named (by decide)

end

/-- At a moment, the rule of an element whose children are written is asked with some content. -/
def Asks (now : Moment) (rule : Rule) (site : Site) (content : Chars) : Prop :=
  ∃ ground whole next outer, now.frames = ⟨some (site, rule), ground, [], whole⟩ :: next :: outer ∧
    content = (Whitespace.flanking whole).2.1

theorem enclosed_broken_iff_severed (o : Options) (flowing : o.preformattedCode = false) (w : Workbench)
    (applied : Gfm.strikethroughPlugin {} = .ok () w) (tree : Tree) (s : State) (labelled : Labelled o s)
    (links : LabelledByText o → LinksWhole o [((rootOf (Site.ofTree tree)).prepared o).node]) (now : Moment)
    (reaches : Moment.Reaches w.table o (started o (Site.ofTree tree) s) now) (rule : Rule) (site : Site)
    (content : Chars) (asks : Asks now rule site content) (named : rule.name ∈ enclosingNames) :
    (∃ inner u, rule.replacement content site o now.state = .ok inner u ∧ Enclosed content inner) ∧
      ∃ signs ∈ rowReadings o site.node.kids, (Broken content ↔ Severed signs) := by
  rw [strikethrough_applied w applied] at reaches
  obtain ⟨underway, -⟩ := reaches_underway o flowing _ now reaches (started_underway o tree s links) labelled
  obtain ⟨ground, whole, next, outer, frames, rfl⟩ := asks
  rw [frames] at underway
  obtain ⟨m, t, a, ks, path, rfl, found⟩ : ∃ m t a ks path, site = ⟨.element m t a ks, path⟩ ∧
      struckTable.find site o m.blank = .ok rule := by
    cases underway with
    | inside _ m t a ks path _ _ _ _ _ found => exact ⟨m, t, a, ks, path, rfl, found⟩
  have shown : m.blank = false := by
    by_contra blank
    rw [Bool.not_eq_false] at blank
    rw [blank] at found
    cases found
    exact absurd named (by decide)
  rw [shown] at found
  obtain ⟨level, renders, written⟩ := ruled_encloses o m t a ks path rule (struck_ruled _ o rule found) named
  obtain ⟨signs, row, read⟩ := content_read o m t a ks path rule ground whole (next :: outer) underway level
  rw [renders, if_pos rfl] at row
  refine ⟨written _ now.state, signs, row, ?_⟩
  rw [broken_same _ _ (flanking_gapless whole)]
  exact read.signed.broken

-- Struck text with a break and a link whose text names its definition.
def struckLink : Tree :=
  .element () "del" [] [.text () ['a'], .element () "br" [] [], .element () "a" [("href", ['x'])] [.text () ['b']]]

def struckLinkOptions : Options := { linkStyle := .referenced, labelStyle := .shortcut }

theorem struck_link_enclosed : ∃ w now rule site inner u, Gfm.strikethroughPlugin {} = .ok () w ∧
    LabelledByText struckLinkOptions ∧
    Moment.Reaches w.table struckLinkOptions (started struckLinkOptions (Site.ofTree struckLink) {}) now ∧
    Asks now rule site "a  \n[b]".toList ∧ rule.name = "strikethrough" ∧
    rule.replacement "a  \n[b]".toList site struckLinkOptions now.state = .ok inner u ∧
    Enclosed "a  \n[b]".toList inner ∧
    ∃ signs ∈ rowReadings struckLinkOptions site.node.kids, (Broken "a  \n[b]".toList ↔ Severed signs) := by
  have flowing : struckLinkOptions.preformattedCode = false := rfl
  have links : LinksWhole struckLinkOptions
      [((rootOf (Site.ofTree struckLink)).prepared struckLinkOptions).node] := by
    unfold LinksWhole
    decide +kernel
  have labelled : Labelled struckLinkOptions {} := fun _ => ⟨nofun, nofun⟩
  obtain ⟨now, reaches, site, asks⟩ : ∃ now,
      Moment.Reaches struckTable struckLinkOptions (started struckLinkOptions (Site.ofTree struckLink) {}) now ∧
      ∃ site, Asks now Gfm.strikethroughRule site "a  \n[b]".toList := by
    refine ⟨_, reaches_step _ _ _ _ _ _ rfl (reaches_step _ _ _ _ _ _ rfl (reaches_step _ _ _ _ _ _ rfl
      (reaches_step _ _ _ _ _ _ rfl (reaches_step _ _ _ _ _ _ rfl (reaches_step _ _ _ _ _ _ rfl
        (reaches_step _ _ _ _ _ _ rfl .refl)))))), ?_⟩
    exact ⟨_, _, _, _, _, rfl, rfl⟩
  obtain ⟨⟨inner, u, written, enclosed⟩, read⟩ := enclosed_broken_iff_severed struckLinkOptions flowing _ rfl
    struckLink {} labelled (fun _ => links) now reaches Gfm.strikethroughRule site _ asks (by decide)
  exact ⟨_, now, _, site, inner, u, rfl, ⟨rfl, by decide⟩, reaches, asks, rfl, written, enclosed, read⟩

-- A link around two paragraphs keeps the blank line between them.
def linkedParagraphs : Tree :=
  .element () "a" [("href", ['x'])] [.element () "p" [] [.text () ['a']], .element () "p" [] [.text () ['b']]]

theorem linked_paragraphs_straddle : ¬ ∀ (o : Options) (w : Workbench) (tree : Tree) (now : Moment) (rule : Rule)
    (site : Site) (content : Chars), o.preformattedCode = false → Gfm.strikethroughPlugin {} = .ok () w →
    Moment.Reaches w.table o (started o (Site.ofTree tree) {}) now → Asks now rule site content →
    rule.name ∈ enclosingNames → ¬ Broken content := by
  intro always
  obtain ⟨now, reaches, rule, site, asks, named⟩ : ∃ now,
      Moment.Reaches struckTable {} (started {} (Site.ofTree linkedParagraphs) {}) now ∧
      ∃ rule site, Asks now rule site "\n\na\n\nb\n\n".toList ∧ rule.name = "inline-link" := by
    refine ⟨_, reaches_step _ _ _ _ _ _ rfl (reaches_step _ _ _ _ _ _ rfl (reaches_step _ _ _ _ _ _ rfl
      (reaches_step _ _ _ _ _ _ rfl (reaches_step _ _ _ _ _ _ rfl (reaches_step _ _ _ _ _ _ rfl
        (reaches_step _ _ _ _ _ _ rfl .refl)))))), ?_⟩
    exact ⟨_, _, ⟨_, _, _, _, rfl, rfl⟩, rfl⟩
  have enclosing : rule.name ∈ enclosingNames := by
    rw [named]
    decide
  exact always {} _ linkedParagraphs now rule site _ rfl rfl reaches asks enclosing (by decide)

end Downmark.Render
