import Downmark.Proofs.PlainElements
import Downmark.Proofs.Readings
import Downmark.Proofs.UnbrokenLabels
/-!
The default rules together with the one for struck text, and what each of them writes as far as blank lines are
concerned. Main statements: the rule of a block element other than an item puts blank lines around it, that of an
element within a line writes what the tree lets expect, and labels stay without blank lines as long as the texts of
links do.
-/

set_option autoImplicit false

namespace Downmark

open Node Render

def struckTable : RuleTable := { plugins := [Gfm.strikethroughRule] }

theorem strikethrough_applied (w : Workbench) (applied : Gfm.strikethroughPlugin {} = .ok () w) :
    w.table = struckTable := by
  cases applied
  rfl

theorem struck_found (site : Site) (o : Options) (blank : Bool) : struckTable.find site o blank =
    if !blank && struckTags.contains site.tag then .ok Gfm.strikethroughRule
    else ({} : RuleTable).find site o blank := by
  have order : struckTable.inOrder = Gfm.strikethroughRule :: ({} : RuleTable).inOrder := rfl
  have claims : Gfm.strikethroughRule.claims site o = .ok (struckTags.contains site.tag) := rfl
  cases blank with
  | true => rfl
  | false =>
      rw [RuleTable.find, if_neg Bool.false_ne_true, order, RuleTable.firstClaim, claims]
      cases struckTags.contains site.tag with
      | true => rfl
      | false => rfl

/-- The rule that an element which is not blank gets. -/
inductive Ruled (site : Site) (o : Options) : Rule → Prop where
  | struck (named : site.tag ∈ struckTags) : Ruled site o Gfm.strikethroughRule
  | listed (rule : Rule) (listed : rule ∈ CommonMark.rules) (claims : rule.claims site o = .ok true) : Ruled site o rule
  | removed (tag : String) (listed : tag ∈ removedTags) (named : site.tag = tag) :
      Ruled site o { Rule.remove (.tags [tag]) with name := "remove-" ++ tag }
  | other (unstruck : site.tag ∉ struckTags) (found : ({} : RuleTable).find site o false = .ok Rule.default) :
      Ruled site o Rule.default

theorem struck_ruled (site : Site) (o : Options) (rule : Rule) (found : struckTable.find site o false = .ok rule) :
    Ruled site o rule := by
  rw [struck_found] at found
  split at found
  · rename_i named
    cases found
    exact .struck (by simpa using named)
  · rename_i named
    rcases RuleTable.find_cases {} site o false rule found with ⟨blank, -⟩ | ⟨-, listed, claims⟩ | ⟨-, rfl, -⟩
    · cases blank
    · rcases List.mem_append.mp listed with builtin | removed
      · exact .listed rule (by simpa using builtin) claims
      · obtain ⟨tag, member, rfl⟩ := List.mem_map.mp removed
        have named : site.tag = tag := by simpa [Rule.claims, Rule.remove] using claims
        exact .removed tag member named
    · exact .other (by simpa using named) found

theorem struck_removed (m : Mark) (t : String) (a : Attrs) (ks : List Marked) (path : List Step) (o : Options)
    (listed : t ∈ removedTags) : struckTable.find ⟨.element m t a ks, path⟩ o false =
      .ok { Rule.remove (.tags [t]) with name := "remove-" ++ t } := by
  have unstruck : struckTags.contains t = false :=
    (by decide : ∀ t ∈ removedTags, struckTags.contains t = false) t listed
  have tags : t = "script" ∨ t = "style" ∨ t = "template" ∨ t = "noscript" := by simpa [removedTags] using listed
  rw [struck_found, show (⟨.element m t a ks, path⟩ : Site).tag = t from rfl, unstruck]
  rcases tags with rfl | rfl | rfl | rfl <;>
    simp [RuleTable.find, RuleTable.inOrder, RuleTable.firstClaim, CommonMark.rules, CommonMark.headingTags,
      Rule.claims, Filter.holds, Site.tag, Node.tag, CommonMark.isCodeBlock, Code.isBlock, CommonMark.isPreformatted,
      Link.isLink, Node.isNamed, Inline.isCode, Rule.removals, removedTags, Rule.remove]

-- The texts of links are the labels of their definitions.
def LabelledByText (o : Options) : Prop := o.linkStyle = .referenced ∧ o.labelStyle ≠ .full

def Labelled (o : Options) (s : State) : Prop := o.linkStyle = .referenced → s.references.Whole

section

variable (o : Options) (m : Mark) (t : String) (a : Attrs) (ks : List Marked) (path : List Step)

theorem image_labelled (content inner : Chars) (s u : State) (labelled : Labelled o s)
    (worked : Link.image content ⟨.element m t a ks, path⟩ o s = .ok inner u) : Labelled o u := by
  intro referenced
  have text := Link.image_text_whole (.element m t a ks : Marked)
  unfold Link.image at worked
  by_cases empty : (Node.attr "src" (.element m t a ks : Marked)).isEmpty
  · simp only [empty, if_true] at worked
    cases worked
    exact labelled referenced
  · simp only [empty, referenced, if_true] at worked
    obtain ⟨rest, v, made, ended⟩ := (bind_ok_iff _ _ _ _ _).mp worked
    cases ended
    exact (Link.suffix_whole _ _ _ _ _ _ _ (labelled referenced) (fun _ => text) made).2

-- Only links and images ask the collector.
theorem listed_labelled (content inner : Chars) (s u : State) (labelled : Labelled o s)
    (plain : LabelledByText o → t = "a" → ¬ Broken content) : ∀ rule ∈ CommonMark.rules,
      rule.claims ⟨.element m t a ks, path⟩ o = .ok true →
      rule.replacement content ⟨.element m t a ks, path⟩ o s = .ok inner u → Labelled o u := by
  have still (f : Chars → Site → Options → State → Chars)
      (worked : Replacement.ofFunction f content ⟨.element m t a ks, path⟩ o s = .ok inner u) : Labelled o u := by
    cases worked
    exact labelled
  simp only [CommonMark.rules, List.forall_mem_cons]
  refine ⟨fun _ => still _, fun _ => still _, fun _ => still _, fun _ => still _, fun _ => still _, fun _ => still _,
    ?indented, ?fenced, fun _ => still _, fun _ => still _, fun _ => still _, ?reference, fun _ => still _,
    fun _ => still _, fun _ => still _, fun _ => image_labelled o m t a ks path content inner s u labelled, by simp⟩
  case indented =>
    intro _ worked
    obtain ⟨code, -, rfl⟩ := indented_written content _ o s u inner worked
    exact labelled
  case fenced =>
    intro _ worked
    obtain ⟨info, code, -, rfl, -⟩ := fenced_written content _ o s u inner worked
    exact labelled
  case reference =>
    intro claims worked referenced
    obtain ⟨-, link⟩ := (Bool.and_eq_true _ _).mp (Except.ok.inj claims)
    have named : t = "a" := by simpa [isNamed] using ((Bool.and_eq_true _ _).mp link).1
    obtain ⟨suffix, v, made, ended⟩ := (bind_ok_iff _ _ _ _ _).mp worked
    cases ended
    exact (Link.suffix_whole _ _ _ _ _ _ _ (labelled referenced) (fun short => plain ⟨referenced, short⟩ named) made).2

theorem ruled_labelled (rule : Rule) (ruled : Ruled ⟨.element m t a ks, path⟩ o rule) (content inner : Chars)
    (s u : State) (labelled : Labelled o s) (plain : LabelledByText o → t = "a" → ¬ Broken content)
    (worked : rule.replacement content ⟨.element m t a ks, path⟩ o s = .ok inner u) : Labelled o u := by
  cases ruled with
  | struck | removed | other =>
      cases worked
      exact labelled
  | listed rule listed claims =>
      exact listed_labelled o m t a ks path content inner s u labelled plain rule listed claims worked

/-! Elements within a line -/

section

variable (level : isBlockTag t = false)

include level

theorem ruled_renders (unread : t ∉ removedTags) (rule : Rule) (ruled : Ruled ⟨.element m t a ks, path⟩ o rule) :
    rule.rendersChildren = true := by
  cases ruled with
  | struck | other => rfl
  | removed tag listed named =>
      have same : t = tag := named
      exact absurd (same ▸ listed) unread
  | listed rule listed claims =>
      by_contra still
      rw [Bool.not_eq_true] at still
      exact absurd (level.symm.trans (unrendered_block _ o rule listed still claims)) Bool.false_ne_true

theorem outside_named (rule : Rule) (names : List String) (filter : rule.filter = .tags names)
    (blocks : ∀ name ∈ names, isBlockTag name = true)
    (claims : rule.claims ⟨.element m t a ks, path⟩ o = .ok true) : False := by
  have block := named_block ⟨.element m t a ks, path⟩ o rule names filter blocks claims
  exact absurd (level.symm.trans block) Bool.false_ne_true

theorem outside_pre (named : isNamed "pre" (.element m t a ks : Marked) = true) : False :=
  absurd (level.symm.trans (named_pre _ named)) Bool.false_ne_true

theorem listed_read (inside : List Sign) (content inner : Chars) (s u : State) (signed : Signed inside content)
    (stop : content.head?.any Text.isGap = false) (labelled : Labelled o s)
    (plain : LabelledByText o → t = "a" → ¬ Broken content) :
    ∀ rule ∈ CommonMark.rules, rule.claims ⟨.element m t a ks, path⟩ o = .ok true →
      rule.replacement content ⟨.element m t a ks, path⟩ o s = .ok inner u →
      ReadAs o (.element m t a ks) inside content inner := by
  simp only [CommonMark.rules, List.forall_mem_cons]
  refine ⟨?paragraph, ?lineBreak, ?heading, ?quote, ?list, ?item, ?indented, ?fenced, ?preformatted, ?rule, ?inline,
    ?reference, ?emphasis, ?strong, ?code, ?image, by simp⟩
  case paragraph => exact fun claims _ => (outside_named o m t a ks path level _ ["p"] rfl (by decide) claims).elim
  case heading =>
    exact fun claims _ => (outside_named o m t a ks path level _ CommonMark.headingTags rfl (by decide) claims).elim
  case quote => exact fun claims _ => (outside_named o m t a ks path level _ ["blockquote"] rfl (by decide) claims).elim
  case list => exact fun claims _ => (outside_named o m t a ks path level _ ["ul", "ol"] rfl (by decide) claims).elim
  case item => exact fun claims _ => (outside_named o m t a ks path level _ ["li"] rfl (by decide) claims).elim
  case rule => exact fun claims _ => (outside_named o m t a ks path level _ ["hr"] rfl (by decide) claims).elim
  case indented | fenced =>
    intro claims _
    obtain ⟨-, block⟩ := (Bool.and_eq_true _ _).mp (Except.ok.inj claims)
    exact (outside_pre m t a ks level ((Bool.and_eq_true _ _).mp block).1).elim
  case preformatted =>
    exact fun claims _ => (outside_pre m t a ks level ((Bool.and_eq_true _ _).mp (Except.ok.inj claims)).1).elim
  case lineBreak =>
    intro claims worked
    obtain rfl := of_function_ok _ content _ o s u inner worked
    exact break_read o m t a ks inside content
      (List.mem_singleton.mp (claimed_named o m t a ks path _ ["br"] rfl claims))
  case inline =>
    intro claims worked
    obtain rfl := of_function_ok _ content _ o s u inner worked
    obtain ⟨inlined, link⟩ := (Bool.and_eq_true _ _).mp (Except.ok.inj claims)
    obtain ⟨named, given⟩ := (Bool.and_eq_true _ _).mp link
    exact link_read o m t a ks inside content (by simpa [isNamed] using named) (by simpa using given) signed _
      (target_trails [] _ _) (target_inlined o (by simpa using inlined) _ _)
  case reference =>
    intro claims worked
    obtain ⟨choice, link⟩ := (Bool.and_eq_true _ _).mp (Except.ok.inj claims)
    obtain ⟨named, given⟩ := (Bool.and_eq_true _ _).mp link
    have referenced : o.linkStyle = .referenced := by simpa using choice
    have anchor : t = "a" := by simpa [isNamed] using named
    obtain ⟨suffix, v, made, ended⟩ := (bind_ok_iff _ _ _ _ _).mp worked
    cases ended
    have whole := (Link.suffix_whole _ _ _ _ _ _ _ (labelled referenced)
      (fun short => plain ⟨referenced, short⟩ anchor) made).1
    exact link_read o m t a ks inside content anchor (by simpa using given) signed suffix
      (suffix_trails [] suffix (suffix_ends _ _ _ _ _ _ _ made)) (suffix_referenced o referenced _ suffix whole)
  case emphasis =>
    intro claims worked
    have listed := claimed_named o m t a ks path _ ["em", "i"] rfl claims
    obtain rfl := of_function_ok _ content _ o s u inner worked
    have line (d : EmDelimiter) : (Leads d.text ∧ Trails d.text) ∧ '\n' ∉ d.text := by
      cases d <;> exact ⟨⟨rfl, rfl⟩, by decide⟩
    exact emphasis_read o m t a ks inside content ((by decide : ∀ t ∈ ["em", "i"], t ∈ emphasizedTags) t listed) signed
      _ _ _ (line _) (line _)
  case strong =>
    intro claims worked
    have listed := claimed_named o m t a ks path _ ["strong", "b"] rfl claims
    obtain rfl := of_function_ok _ content _ o s u inner worked
    have line (d : StrongDelimiter) : (Leads d.text ∧ Trails d.text) ∧ '\n' ∉ d.text := by
      cases d <;> exact ⟨⟨rfl, rfl⟩, by decide⟩
    exact emphasis_read o m t a ks inside content ((by decide : ∀ t ∈ ["strong", "b"], t ∈ emphasizedTags) t listed)
      signed _ _ _ (line _) (line _)
  case code =>
    intro claims worked
    obtain ⟨code, -⟩ := (Bool.and_eq_true _ _).mp (Except.ok.inj claims)
    obtain rfl := of_function_ok _ content _ o s u inner worked
    exact code_read o m t a ks inside content (by simpa [isNamed] using code) signed stop
  case image =>
    intro claims worked
    have named := List.mem_singleton.mp (claimed_named o m t a ks path _ ["img"] rfl claims)
    change Link.image content ⟨.element m t a ks, path⟩ o s = .ok inner u at worked
    unfold Link.image at worked
    by_cases empty : (Node.attr "src" (.element m t a ks : Marked)).isEmpty
    · simp only [empty, if_true] at worked
      cases worked
      subst named
      have row : inlineSigns o (.element m "img" a ks) inside = [] := by simp [inlineSigns, isNamed, empty]
      exact ⟨row ▸ signed_nil, by simp⟩
    · simp only [empty, Bool.false_eq_true, if_false] at worked
      split at worked
      · rename_i referenced
        have text := Link.image_text_whole (.element m t a ks : Marked)
        obtain ⟨rest, v, made, ended⟩ := (bind_ok_iff _ _ _ _ _).mp worked
        cases ended
        have whole := (Link.suffix_whole _ _ _ _ _ _ _ (labelled referenced) (fun _ => text) made).1
        exact image_read o m t a ks inside content named rest (by simpa using empty)
          (suffix_trails ('!' :: '[' :: Link.imageText _) rest (suffix_ends _ _ _ _ _ _ _ made))
          (suffix_referenced o referenced _ rest whole)
      · rename_i placed
        cases worked
        have inlined : o.linkStyle = .inlined := by
          cases style : o.linkStyle with
          | inlined => rfl
          | referenced => exact absurd style placed
        exact image_read o m t a ks inside content named _ (by simpa using empty)
          (target_trails ('!' :: '[' :: Link.imageText _) _ _) (target_inlined o inlined _ _)

omit level in
theorem default_read (outside : Site.parentTag? ⟨.element m t a ks, path⟩ ≠ some "pre")
    (unstruck : t ∉ struckTags) (inside : List Sign) (content : Chars) (signed : Signed inside content)
    (found : ({} : RuleTable).find ⟨.element m t a ks, path⟩ o false = .ok Rule.default) :
    ReadAs o (.element m t a ks) inside content content := by
  have laid := default_laid o m t a ks path (fun pre => absurd pre outside) found
  have refused := RuleTable.default_refused _ o found
  have em : t ∉ ["em", "i"] := refused_names _ _ o refused 12 _ ["em", "i"] rfl rfl
  have strong : t ∉ ["strong", "b"] := refused_names _ _ o refused 13 _ ["strong", "b"] rfl rfl
  have line : t ∉ ["br"] := refused_names _ _ o refused 1 _ ["br"] rfl rfl
  have other := laid.other
  simp only [unlaidTags, List.mem_cons, List.not_mem_nil, or_false, not_or] at other
  have targetless : ¬ (t = "a" ∧ ¬ Node.attr "href" (.element m t a ks : Marked) = []) := by
    rintro ⟨anchor, given⟩
    exact given (laid.targetless anchor)
  simp only [List.mem_cons, List.not_mem_nil, or_false, not_or] at em strong line
  have row : inlineSigns o (.element m t a ks) inside = inside := by
    simp [inlineSigns, Node.tag, targetless, emphasizedTags, unstruck, isNamed, em, strong, line, other]
  rw [ReadAs, row]
  exact ⟨signed, fun _ => ⟨rfl, rfl⟩⟩

end

/-! Blocks -/

section

variable (level : isBlockTag t = true)

include level

theorem block_other (names : List String) (within : ∀ name ∈ names, isBlockTag name = false) : t ∉ names :=
  fun listed => absurd ((within t listed).symm.trans level) Bool.false_ne_true

theorem listed_parted (single : t ≠ "li") (apart : ∀ step ∈ path.head?, step.head.tag ≠ "li") (content inner : Chars)
    (s u : State) : ∀ rule ∈ CommonMark.rules, rule.claims ⟨.element m t a ks, path⟩ o = .ok true →
      rule.replacement content ⟨.element m t a ks, path⟩ o s = .ok inner u → Broken inner := by
  have inline (rule : Rule) (names : List String) (filter : rule.filter = .tags names)
      (within : ∀ name ∈ names, isBlockTag name = false)
      (claims : rule.claims ⟨.element m t a ks, path⟩ o = .ok true) : Broken inner :=
    absurd (claimed_named o m t a ks path rule names filter claims) (block_other t level names within)
  have between (f : Chars → Site → Options → State → Chars)
      (worked : Replacement.ofFunction f content ⟨.element m t a ks, path⟩ o s = .ok inner u)
      (text : Chars) (made : f content ⟨.element m t a ks, path⟩ o s = Block.apart text) : Broken inner := by
    rw [of_function_ok f content _ o s u inner worked, made]
    exact apart_broken text
  have unlinked : isNamed "a" (.element m t a ks : Marked) = false := by
    simpa [isNamed] using block_other t level ["a"] (by decide)
  simp only [CommonMark.rules, List.forall_mem_cons]
  refine ⟨fun _ worked => between _ worked _ rfl, ?lineBreak, fun _ worked => between _ worked _ rfl,
    fun _ worked => between _ worked _ rfl, ?list, ?item, ?indented, ?fenced, fun _ worked => between _ worked _ rfl,
    fun _ worked => between _ worked _ rfl, ?inline, ?reference, ?emphasis, ?strong, ?code, ?image, by simp⟩
  case lineBreak => exact fun claims _ => inline _ ["br"] rfl (by decide) claims
  case emphasis => exact fun claims _ => inline _ ["em", "i"] rfl (by decide) claims
  case strong => exact fun claims _ => inline _ ["strong", "b"] rfl (by decide) claims
  case image => exact fun claims _ => inline _ ["img"] rfl (by decide) claims
  case item =>
    exact fun claims _ =>
      absurd (List.mem_singleton.mp (claimed_named o m t a ks path _ ["li"] rfl claims)) single
  case inline | reference =>
    intro claims
    simp [Rule.claims, Filter.holds, Link.isLink, unlinked] at claims
  case code =>
    intro claims
    have uncoded : isNamed "code" (.element m t a ks : Marked) = false := by
      simpa [isNamed] using block_other t level ["code"] (by decide)
    simp [Rule.claims, Filter.holds, Inline.isCode, uncoded] at claims
  case list =>
    intro _ worked
    refine between _ worked content ?_
    cases path with
    | nil => rfl
    | cons step above =>
        have other : (step.head.tag == "li") = false := by simpa using apart step rfl
        simp [other]
  case indented =>
    intro _ worked
    obtain ⟨code, rfl, -⟩ := indented_written content _ o s u inner worked
    exact apart_broken _
  case fenced =>
    intro _ worked
    obtain ⟨info, code, rfl, -⟩ := fenced_written content _ o s u inner worked
    exact apart_broken _

theorem ruled_parted (single : t ≠ "li") (unread : t ∉ removedTags)
    (apart : ∀ step ∈ path.head?, step.head.tag ≠ "li") (rule : Rule) (ruled : Ruled ⟨.element m t a ks, path⟩ o rule)
    (content inner : Chars) (s u : State)
    (worked : rule.replacement content ⟨.element m t a ks, path⟩ o s = .ok inner u) : Broken inner := by
  cases ruled with
  | struck named => exact absurd named (block_other t level struckTags (by decide))
  | removed tag listed named =>
      have same : t = tag := named
      exact absurd (same ▸ listed) unread
  | listed rule listed claims =>
      exact listed_parted o m t a ks path level single apart content inner s u rule listed claims worked
  | other =>
      change Rule.defaultReplacement content ⟨.element m t a ks, path⟩ o s = .ok inner u at worked
      have block : isBlock (.element m t a ks : Marked) = true := level
      rw [of_function_ok _ content _ o s u inner worked, if_pos block]
      exact apart_broken _

end

theorem parted_signed (n : Marked) (w : Chars) (broken : Broken w) : ∃ signs ∈ blockSigns n, Signed signs w := by
  by_cases seen : Seen w
  · exact ⟨[.parted, .ink], by simp [blockSigns], signed_severed _ _ (iff_of_true seen (by decide)) (by decide) broken⟩
  · exact ⟨[.parted], by simp [blockSigns], signed_severed _ _ (iff_of_false seen (by decide)) (by decide) broken⟩

theorem item_signed (n : Marked) (named : n.isNamed "li" = true) (c : Char) (rest : Chars) (ink : Ink c) :
    ∃ signs ∈ blockSigns n, Signed signs (c :: rest) := by
  by_cases broken : Broken (c :: rest)
  · exact parted_signed n _ broken
  · have front : (gapless (c :: rest)).head?.map Text.isNewline = some false := by
      rw [gapless_cons, ink.gap, if_neg Bool.false_ne_true]
      simpa [Text.isNewline] using ink.newline
    have given (sign : Sign) (seen : Seen (c :: rest) ↔ sign = .ink) (plain : sign = .ink ∨ sign = .faint) :
        Signed [sign] (c :: rest) ∨ Signed [sign, .lineBreak] (c :: rest) := by
      obtain ⟨other, one, two⟩ : sign.isBreak = false ∧ ¬ Severed [sign] ∧ ¬ Severed [sign, .lineBreak] := by
        rcases plain with rfl | rfl <;> decide
      obtain ⟨d, last⟩ : ∃ d, (gapless (c :: rest)).getLast? = some d := by
        refine Option.ne_none_iff_exists'.mp fun none => ?_
        rw [List.getLast?_eq_none_iff.mp none] at front
        cases front
      by_cases newline : d = '\n'
      · refine .inr ⟨by simp [seen, eq_comm], iff_of_false broken two, fun _ => ?_, fun _ => ?_⟩
        · rw [front, List.head?_cons, Option.map_some, other]
        · rw [last, newline]
          rfl
      · refine .inl ⟨by simp [seen, eq_comm], iff_of_false broken one, fun _ => ?_, fun _ => ?_⟩
        · rw [front, List.head?_cons, Option.map_some, other]
        · rw [last, List.getLast?_singleton, Option.map_some, Option.map_some, other]
          simpa [Text.isNewline] using newline
    by_cases seen : Seen (c :: rest)
    · rcases given .ink (iff_of_true seen rfl) (.inl rfl) with signed | signed
      · exact ⟨_, by simp [blockSigns, named], signed⟩
      · exact ⟨_, by simp [blockSigns, named], signed⟩
    · rcases given .faint (iff_of_false seen (by decide)) (.inr rfl) with signed | signed
      · exact ⟨_, by simp [blockSigns, named], signed⟩
      · exact ⟨_, by simp [blockSigns, named], signed⟩

theorem item_found : struckTable.find ⟨.element m "li" a ks, path⟩ o false =
    .ok { name := "list-item", filter := .tags ["li"], replacement := Block.listItem } := by
  rw [struck_found]
  simp [RuleTable.find, RuleTable.inOrder, RuleTable.firstClaim, CommonMark.rules, CommonMark.headingTags, Rule.claims,
    Site.tag, Node.tag, struckTags]

theorem item_inked (tidy : m.Tidy) (content inner : Chars) (s u : State)
    (worked : Block.listItem content ⟨.element m t a ks, path⟩ o s = .ok inner u) : Inked inner := by
  obtain rfl := of_function_ok _ content _ o s u inner worked
  have marker : MarkerLike (Block.markerOf o ⟨.element m t a ks, path⟩) := by
    unfold Block.markerOf
    cases noted : m.marker with
    | none => simpa [Node.mark, noted] using of_item_marker o _
    | some marker => simpa [Node.mark, noted] using tidy.marker marker noted
  have item : Inked (Block.itemText (Block.markerOf o ⟨.element m t a ks, path⟩) content) :=
    inked_append _ _ marker.inked
  dsimp only
  split
  · exact inked_append _ _ item
  · exact item

end

end Downmark
