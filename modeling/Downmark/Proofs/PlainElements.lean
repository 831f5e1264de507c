import Downmark.Render.Walk
/-!
Plain elements: inline elements that no rule claims by name or by their place. Main statement: these are
just the elements that the rules of plain Markdown leave to the default rule.
-/

set_option autoImplicit false

namespace Downmark

def claimedTags : List String :=
  ["p", "br", "h1", "h2", "h3", "h4", "h5", "h6", "blockquote", "ul", "ol", "li", "pre", "hr", "em", "i", "strong",
   "b", "code", "img", "script", "style", "template", "noscript"]

structure Plain (t : String) (a : Attrs) : Prop where
  inline : isBlockTag t = false
  filled : isVoidTag t = false
  unclaimed : t ∉ claimedTags
  targetless : t = "a" → (a.lookup "href").getD [] = []

namespace RuleTable

theorem first_claim_cons (site : Site) (o : Options) (first : Rule) (rest : List Rule) :
    firstClaim site o (first :: rest) = match first.claims site o with
      | .error failure => .error failure
      | .ok true => .ok (some first)
      | .ok false => firstClaim site o rest := rfl

theorem first_claim_none_iff (site : Site) (o : Options) (rules : List Rule) :
    firstClaim site o rules = .ok none ↔ ∀ rule ∈ rules, rule.claims site o = .ok false := by
  induction rules with
  | nil => simp [firstClaim]
  | cons first rest ih =>
      rw [first_claim_cons, List.forall_mem_cons]
      rcases answer : first.claims site o with failure | _ | _ <;> simp [ih]

theorem first_claim_mem (site : Site) (o : Options) (rules : List Rule) (found : Rule)
    (claimed : firstClaim site o rules = .ok (some found)) : found ∈ rules := by
  induction rules with
  | nil => cases claimed
  | cons first rest ih =>
      unfold firstClaim at claimed
      split at claimed
      · cases claimed
      · cases claimed
        exact List.mem_cons_self
      · exact List.mem_cons_of_mem first (ih claimed)

theorem default_unlisted : ∀ rule ∈ ({} : RuleTable).inOrder, rule.name ≠ Rule.default.name := by
  simp [inOrder, CommonMark.rules, Rule.removals, removedTags, Rule.default]

-- The default rule is in no table, so it is found only where every rule of the table has refused.
theorem default_refused (site : Site) (o : Options) (found : ({} : RuleTable).find site o false = .ok Rule.default) :
    ∀ rule ∈ ({} : RuleTable).inOrder, rule.claims site o = .ok false := by
  cases first : firstClaim site o ({} : RuleTable).inOrder with
  | error failure => simp [find, first] at found
  | ok claimed =>
      cases claimed with
      | none => exact (first_claim_none_iff site o _).mp first
      | some rule =>
          have same : rule = Rule.default := by simpa [find, first] using found
          have listed := default_unlisted rule (first_claim_mem site o _ rule first)
          exact absurd (congrArg Rule.name same) listed

end RuleTable

section

variable (o : Options) (m : Mark) (t : String) (a : Attrs) (ks : List Marked) (path : List Step) (rule : Rule)

theorem claimed_named (names : List String) (filter : rule.filter = .tags names)
    (claims : rule.claims ⟨.element m t a ks, path⟩ o = .ok true) : t ∈ names := by
  rw [Rule.claims, filter] at claims
  simpa [Site.tag, Node.tag] using claims

theorem claimed_holds (p : Site → Options → Bool) (filter : rule.filter = .holds p)
    (claims : rule.claims ⟨.element m t a ks, path⟩ o = .ok true) : p ⟨.element m t a ks, path⟩ o = true := by
  rw [Rule.claims, filter] at claims
  simpa [Filter.holds] using claims

end

theorem refused_names (rules : List Rule) (site : Site) (o : Options)
    (refused : ∀ rule ∈ rules, rule.claims site o = .ok false) (i : Nat) (rule : Rule) (names : List String)
    (place : rules[i]? = some rule) (filter : rule.filter = .tags names) : site.tag ∉ names := by
  have answer := refused rule (List.mem_of_getElem? place)
  simp only [Rule.claims, filter, Except.ok.injEq] at answer
  simpa using answer

theorem refused_predicate (rules : List Rule) (site : Site) (o : Options)
    (refused : ∀ rule ∈ rules, rule.claims site o = .ok false) (i : Nat) (rule : Rule)
    (p : Site → Options → Bool) (place : rules[i]? = some rule) (filter : rule.filter = .holds p) :
    p site o = false := by
  have answer := refused rule (List.mem_of_getElem? place)
  simpa only [Rule.claims, filter, Filter.holds, Except.ok.injEq] using answer

-- Elements that are not laid out from their content: code, images, and what no reader sees.
def unlaidTags : List String := ["pre", "code", "img", "script", "style", "template", "noscript"]

structure Laid (t : String) (a : Attrs) : Prop where
  other : t ∉ unlaidTags
  targetless : t = "a" → (a.lookup "href").getD [] = []

-- Nothing but the parent could excuse a code element from its rule, and only inside of preformatted text.
theorem default_laid (o : Options) (m : Mark) (t : String) (a : Attrs) (ks : List Marked) (path : List Step)
    (outside : Site.parentTag? ⟨.element m t a ks, path⟩ = some "pre" → t ≠ "code")
    (found : ({} : RuleTable).find ⟨.element m t a ks, path⟩ o false = .ok Rule.default) : Laid t a := by
  have refused := RuleTable.default_refused _ o found
  have image := refused_names _ _ o refused 15 _ ["img"] rfl rfl
  have script := refused_names _ _ o refused 16 _ ["script"] rfl rfl
  have style := refused_names _ _ o refused 17 _ ["style"] rfl rfl
  have template := refused_names _ _ o refused 18 _ ["template"] rfl rfl
  have noscript := refused_names _ _ o refused 19 _ ["noscript"] rfl rfl
  have indented := refused_predicate _ _ o refused 6 _ (CommonMark.isCodeBlock .indented) rfl rfl
  have fenced := refused_predicate _ _ o refused 7 _ (CommonMark.isCodeBlock .fenced) rfl rfl
  have other := refused_predicate _ _ o refused 8 _ (fun site _ => CommonMark.isPreformatted site) rfl rfl
  have code := refused_predicate _ _ o refused 14 _ (fun site _ => Inline.isCode site) rfl rfl
  have inlined := refused_predicate _ _ o refused 10 _
    (fun site o => o.linkStyle = .inlined && Link.isLink site) rfl rfl
  have referenced := refused_predicate _ _ o refused 11 _
    (fun site o => o.linkStyle = .referenced && Link.isLink site) rfl rfl
  have uncoded : t ≠ "code" := by
    by_cases inside : Site.parentTag? ⟨.element m t a ks, path⟩ = some "pre"
    · exact outside inside
    · have elsewhere : Site.isIn "pre" ⟨.element m t a ks, path⟩ = false := by simpa [Site.isIn] using inside
      simpa [Inline.isCode, Node.isNamed, elsewhere] using code
  have flowing : t ≠ "pre" := by
    have block : Code.isBlock (.element m t a ks) = false := by
      cases style : o.codeBlockStyle with
      | indented => simpa [CommonMark.isCodeBlock, style] using indented
      | fenced => simpa [CommonMark.isCodeBlock, style] using fenced
    simpa [CommonMark.isPreformatted, block, Node.isNamed] using other
  refine ⟨?_, fun anchor => ?_⟩
  · simp_all [unlaidTags, Site.tag, Node.tag]
  · have link : Link.isLink ⟨.element m t a ks, path⟩ = false := by
      cases choice : o.linkStyle with
      | inlined => simpa [choice] using inlined
      | referenced => simpa [choice] using referenced
    simpa [Link.isLink, Node.isNamed, anchor, Node.attr, Node.attr?, Node.attrs] using link

theorem default_unclaimed (o : Options) (m : Mark) (t : String) (a : Attrs) (ks : List Marked) (path : List Step)
    (laid : Laid t a) (inline : isBlockTag t = false)
    (found : ({} : RuleTable).find ⟨.element m t a ks, path⟩ o false = .ok Rule.default) : t ∉ claimedTags := by
  have refused := RuleTable.default_refused _ o found
  have lineBreak : t ∉ ["br"] := refused_names _ _ o refused 1 _ ["br"] rfl rfl
  have emphasis : t ∉ ["em", "i"] := refused_names _ _ o refused 12 _ ["em", "i"] rfl rfl
  have strong : t ∉ ["strong", "b"] := refused_names _ _ o refused 13 _ ["strong", "b"] rfl rfl
  intro listed
  have known : ∀ name ∈ claimedTags, isBlockTag name = true ∨ name ∈ ["br"] ∨ name ∈ ["em", "i"] ∨
      name ∈ ["strong", "b"] ∨ name ∈ unlaidTags := by decide
  rcases known t listed with block | void | first | second | third
  · rw [inline] at block
    cases block
  · exact lineBreak void
  · exact emphasis first
  · exact strong second
  · exact laid.other third

theorem default_plain (o : Options) (m : Mark) (t : String) (a : Attrs) (ks : List Marked) (path : List Step)
    (outside : Site.parentTag? ⟨.element m t a ks, path⟩ = some "pre" → t ≠ "code") (inline : isBlockTag t = false)
    (filled : isVoidTag t = false)
    (found : ({} : RuleTable).find ⟨.element m t a ks, path⟩ o false = .ok Rule.default) : Plain t a := by
  have laid := default_laid o m t a ks path outside found
  exact ⟨inline, filled, default_unclaimed o m t a ks path laid inline found, laid.targetless⟩

theorem plain_other (t : String) (a : Attrs) (plain : Plain t a) (name : String) (listed : name ∈ claimedTags) :
    t ≠ name :=
  fun same => plain.unclaimed (same ▸ listed)

section

variable (o : Options) (m : Mark) (t : String) (a : Attrs) (ks : List Marked) (path : List Step)

theorem untargeted_no_link (targetless : t = "a" → (a.lookup "href").getD [] = []) :
    Link.isLink ⟨.element m t a ks, path⟩ = false := by
  by_cases anchor : t = "a"
  · simpa [Link.isLink, Node.isNamed, anchor, Node.attr, Node.attr?, Node.attrs] using targetless anchor
  · simp [Link.isLink, Node.isNamed, anchor]

theorem unlisted_unclaimed (unclaimed : t ∉ claimedTags) (targetless : t = "a" → (a.lookup "href").getD [] = []) :
    RuleTable.firstClaim ⟨.element m t a ks, path⟩ o ({} : RuleTable).inOrder = .ok none := by
  have other (name : String) (listed : name ∈ claimedTags) : t ≠ name := fun same => unclaimed (same ▸ listed)
  have named (name : String) (listed : name ∈ claimedTags) : Node.isNamed name (.element m t a ks) = false := by
    simpa [Node.isNamed] using other name listed
  simp only [claimedTags, List.forall_mem_cons] at other
  have pre := named "pre" (by decide)
  have code := named "code" (by decide)
  have link := untargeted_no_link m t a ks path targetless
  simp [RuleTable.inOrder, CommonMark.rules, CommonMark.headingTags, Rule.removals, removedTags, Rule.remove,
    RuleTable.firstClaim, Rule.claims, Filter.holds, Site.tag, Node.tag, CommonMark.isCodeBlock, Code.isBlock,
    CommonMark.isPreformatted, Inline.isCode, pre, code, link, other]

theorem plain_unclaimed (plain : Plain t a) :
    RuleTable.firstClaim ⟨.element m t a ks, path⟩ o ({} : RuleTable).inOrder = .ok none :=
  unlisted_unclaimed o m t a ks path plain.unclaimed plain.targetless

end

end Downmark
