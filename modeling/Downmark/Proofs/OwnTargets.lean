import Downmark.Proofs.CollectorCalls
import Downmark.Proofs.OpenElements
import Downmark.Proofs.Targets
/-!
Which targets get a definition. A rule asks the collector for labels of the element that it writes, and only if links
are written by reference. Main statement: no rule of plain Markdown defines a target but the one of the element it
claims.
-/

set_option autoImplicit false

namespace Downmark

def Reference.Link.target (link : Reference.Link) : Target := (link.url, link.title)

namespace Render

/-- All definitions lead to targets of some kind. -/
def LeadsTo (P : Target → Prop) (c : Reference.Collector) : Prop := ∀ link ∈ c.toList, P link.target

/-- Work that adds definitions of targets of some kind only. -/
def Defines {α : Type} (P : Target → Prop) (work : Rendering α) : Prop :=
  ∀ s a t, work s = .ok a t → LeadsTo P s.references → LeadsTo P t.references

variable {P : Target → Prop}

theorem defines_pure {α : Type} (a : α) : Defines P (pure a : Rendering α) := by
  rintro s b t ⟨⟩
  exact id

theorem defines_get : Defines P (get : Rendering State) := by
  rintro s b t ⟨⟩
  exact id

theorem defines_throw {α : Type} (failure : Failure) : Defines P (throw failure : Rendering α) := by
  rintro s b t ⟨⟩

theorem defines_note (event : Event) : Defines P (noteRendering event) := by
  rintro s a t ⟨⟩
  exact id

theorem defines_bind {α β : Type} (first : Rendering α) (next : α → Rendering β) (before : Defines P first)
    (after : ∀ a, Defines P (next a)) : Defines P (first >>= next) := by
  intro s b u worked leads
  obtain ⟨a, t, here, there⟩ := (bind_ok_iff first next s u b).mp worked
  exact after a t b u there (before s a t here leads)

theorem add_leads (c : Reference.Collector) (label url : Chars) (title : Option Chars) (fine : P (url, title))
    (leads : LeadsTo P c) : LeadsTo P (c.add label url title).2 := by
  simp only [Reference.Collector.add]
  split
  · exact leads
  · intro link listed
    rw [Reference.Collector.push_toList, List.mem_append, List.mem_singleton] at listed
    rcases listed with old | rfl
    · exact leads link old
    · exact fine

theorem add_numbered_leads (c : Reference.Collector) (url : Chars) (title : Option Chars) (fine : P (url, title))
    (leads : LeadsTo P c) : LeadsTo P (c.addNumbered url title).2 := by
  simp only [Reference.Collector.addNumbered]
  split
  · exact leads
  · exact add_leads c.issueNumber.2 _ url title fine leads

theorem ask_defines (label : Chars) (request : Reference.Collector → Reference.Added × Reference.Collector)
    (fine : ∀ c, LeadsTo P c → LeadsTo P (request c).2) : Defines P (Link.ask label request) := by
  intro s a u asked leads
  obtain ⟨_, _, ⟨⟩, rest⟩ := (bind_ok_iff _ _ _ _ _).mp asked
  obtain ⟨_, t, stored, told⟩ := (bind_ok_iff _ _ _ _ _).mp rest
  have kept : LeadsTo P t.references := by
    cases stored
    exact fine _ leads
  generalize (request s.references).1 = added at told
  cases added with
  | renamed fresh => exact defines_bind _ _ (defines_note _) (fun _ => defines_pure _) t a u told kept
  | reused | asAsked => exact defines_pure _ t a u told kept

theorem suffix_defines (text url : Chars) (title : Option Chars) (style : LabelStyle) (fine : P (url, title)) :
    Defines P (Link.referenceSuffix text url title style) := by
  unfold Link.referenceSuffix
  split
  · refine defines_bind _ _ (ask_defines _ _ fun c => ?_) fun _ => defines_pure _
    exact add_numbered_leads c url title fine
  · refine defines_bind _ _ (ask_defines _ _ fun c => ?_) fun label => ?_
    · exact add_leads c text url title fine
    · split
      · exact defines_pure _
      · exact defines_pure _

theorem code_block_defines (content : Chars) (site : Site) (o : Options) :
    Defines P (Block.indentedCode content site o) ∧ Defines P (Block.fencedCode content site o) := by
  unfold Block.indentedCode Block.fencedCode
  constructor
  · split
    · exact defines_pure _
    · exact defines_throw _
  · split
    · exact defines_pure _
    · exact defines_throw _
    · exact defines_throw _

/-- A rule that defines no target but that of an element which it claims, and it only by reference. -/
def DefinesOwn (rule : Rule) : Prop := ∀ (P : Target → Prop) content site o, rule.claims site o = .ok true →
  (o.linkStyle = .referenced → ∀ target, site.node.target? = some target → P target) →
  Defines P (rule.replacement content site o)

theorem function_defines_own (rule : Rule) (f : Chars → Site → Options → State → Chars)
    (writes : rule.replacement = .ofFunction f) : DefinesOwn rule := by
  intro P content site o _ _
  rw [writes]
  exact defines_bind _ _ defines_get fun _ => defines_pure _

theorem link_defines_own (content : Chars) (site : Site) (o : Options) (link : Link.isLink site = true)
    (own : ∀ target, site.node.target? = some target → P target) : Defines P (Link.referenceLink content site o) := by
  have target : site.node.target? = some (site.node.attr "href", Link.title? site.node) := if_pos link
  exact defines_bind _ _ (suffix_defines _ _ _ _ (own _ target)) fun _ => defines_pure _

theorem image_defines_own (content : Chars) (site : Site) (o : Options) (image : site.node.tag = "img")
    (own : o.linkStyle = .referenced → ∀ target, site.node.target? = some target → P target) :
    Defines P (Link.image content site o) := by
  have named : site.node.isNamed "a" = false ∧ site.node.isNamed "img" = true := by
    obtain ⟨n, path⟩ := site
    cases n with
    | element m t a ks =>
        obtain rfl : t = "img" := image
        exact ⟨rfl, rfl⟩
    | text | comment | document => exact absurd (show "" = "img" from image) (by decide)
  dsimp only [Link.image]
  split
  · exact defines_pure _
  · rename_i sourced
    have target : site.node.target? = some (site.node.attr "src", Link.title? site.node) := by
      rw [Node.target?, named.1, named.2, Bool.false_and, if_neg Bool.false_ne_true, if_pos (by simpa using sourced)]
    split
    · rename_i referenced
      exact defines_bind _ _ (suffix_defines _ _ _ _ (own referenced _ target)) fun _ => defines_pure _
    · exact defines_bind _ _ (defines_pure _) fun _ => defines_pure _

theorem markdown_rules_define : ∀ rule ∈ CommonMark.rules, DefinesOwn rule := by
  simp only [CommonMark.rules, List.forall_mem_cons]
  refine ⟨?paragraph, ?lineBreak, ?heading, ?quote, ?list, ?item, ?indented, ?fenced, ?preformatted, ?ruler,
    ?inlined, ?referenced, ?emphasis, ?strong, ?code, ?image, by simp⟩
  case indented => exact fun P content site o _ _ => (code_block_defines content site o).1
  case fenced => exact fun P content site o _ _ => (code_block_defines content site o).2
  case referenced =>
    intro P content site o claims own
    obtain ⟨referenced, link⟩ := (Bool.and_eq_true _ _).mp (Except.ok.inj claims)
    exact link_defines_own content site o link (own (of_decide_eq_true referenced))
  case image =>
    intro P content site o claims own
    exact image_defines_own content site o (by simpa [Rule.claims, Site.tag] using claims) own
  all_goals exact function_defines_own _ _ rfl

end Render

end Downmark
