import Downmark.Proofs.InkedEnds
import Downmark.Proofs.NeatOutput
import Downmark.Proofs.PlainElements
import Downmark.Proofs.SplitText
/-!
Which nodes have their content written with a solid character at its start or at its end. Main statement: where a
tree says so, the content that is handed to a rule begins or ends with a character that is no white space, but for
the gaps that are split off.
-/

set_option autoImplicit false

namespace Downmark

open Node Whitespace Glyph

namespace Node

variable {μ : Type}

/-- A link with a target, or an image with a source. -/
def isObject (n : Node μ) : Bool :=
  (n.isNamed "a" && !(n.attr "href").isEmpty) || (n.isNamed "img" && !(n.attr "src").isEmpty)

/-- Nothing is written for an element, whatever its content. -/
def isHollow (n : Node μ) : Bool :=
  n.isBlank || removedTags.contains n.tag || (n.isNamed "img" && (n.attr "src").isEmpty)

/-- An element that stands within a line. -/
def isWithinLine (t : String) : Bool := !isBlockTag t && t != "br"

def emphasizedTags : List String := ["em", "i", "strong", "b"]

mutual

/-- Nothing but gaps is written for a node. -/
def isSilent : Node μ → Bool
  | .text _ data => (ink data).isEmpty
  | .comment _ _ => true
  | .document _ _ => true
  | .element m t a ks =>
    isWithinLine t && (isHollow (.element m t a ks) || (!isObject (.element m t a ks) && allSilent ks))

def allSilent : List (Node μ) → Bool
  | [] => true
  | n :: rest => isSilent n && allSilent rest

end

mutual

/-- A solid character is written for a node. -/
def isInked : Node μ → Bool
  | .text _ data => (ink data).any fun c => !Text.isBlank c
  | .comment _ _ => false
  | .document _ _ => false
  | .element m t a ks =>
    isWithinLine t && !isHollow (.element m t a ks) && (isObject (.element m t a ks) || anyInked ks)

def anyInked : List (Node μ) → Bool
  | [] => false
  | n :: rest => isInked n || anyInked rest

end

mutual

/-- What is written for a node begins with a solid character, but for gaps. -/
def startsSolid : Node μ → Bool
  | .text _ data => (ink data).head?.any fun c => !Text.isBlank c
  | .comment _ _ => false
  | .document _ _ => false
  | .element m t a ks =>
    isWithinLine t && !isHollow (.element m t a ks) &&
      (isObject (.element m t a ks) || if emphasizedTags.contains t then anyInked ks else startSolid ks)

def startSolid : List (Node μ) → Bool
  | [] => false
  | n :: rest => startsSolid n || (isSilent n && startSolid rest)

end

mutual

/-- What is written for a node ends with a solid character, but for gaps. -/
def endsSolid : Node μ → Bool
  | .text _ data => (ink data).getLast?.any fun c => !Text.isBlank c
  | .comment _ _ => false
  | .document _ _ => false
  | .element m t a ks =>
    isWithinLine t && !isHollow (.element m t a ks) &&
      (isObject (.element m t a ks) || if emphasizedTags.contains t then anyInked ks else endSolid ks)

def endSolid : List (Node μ) → Bool
  | [] => false
  | n :: rest => endSolid rest || (allSilent rest && endsSolid n)

end

end Node

namespace Render

/-- What writing some nodes does to the ends of the output before them, and what is seen of them. -/
structure Passes (silent seen starts ends : Bool) (output out : Chars) : Prop where
  gaps : silent = true → Gaps output → Gaps out
  keeps : silent = true → Trails output → Trails out
  shows : seen = true → Seen out
  leads : starts = true → Gaps output → Leads out
  trails : ends = true → Trails out
  begun : Leads output → Leads out
  shown : Seen output → Seen out

theorem passes_same (output : Chars) : Passes true false false false output output :=
  ⟨fun _ gaps => gaps, fun _ trails => trails, Bool.noConfusion, Bool.noConfusion, Bool.noConfusion,
    fun leads => leads, fun shown => shown⟩

/-- What is written for a node, as far as it is known to be solid. -/
structure Writes (silent seen starts ends : Bool) (written : Chars) : Prop where
  gaps : silent = true → Gaps written
  shows : seen = true → Seen written
  leads : starts = true → Leads written
  trails : ends = true → Trails written

theorem passes_join (silent seen starts ends : Bool) (output written : Chars)
    (writes : Writes silent seen starts ends written) :
    Passes silent seen starts ends output (join output written) where
  gaps quiet before := gaps_join _ _ before (writes.gaps quiet)
  keeps quiet before := trails_join_before _ _ before (writes.gaps quiet)
  shows appears := seen_join _ _ (.inr (writes.shows appears))
  leads begins before := leads_join_behind _ _ before (writes.leads begins)
  trails finishes := trails_join _ _ (writes.trails finishes)
  begun before := leads_join _ _ before
  shown before := seen_join _ _ (.inl before)

theorem passes_both (a b c d a' b' c' d' : Bool) (output middle out : Chars) (first : Passes a b c d output middle)
    (later : Passes a' b' c' d' middle out) :
    Passes (a && a') (b || b') (c || (a && c')) (d' || (a' && d)) output out where
  gaps quiet before := by
    obtain ⟨here, there⟩ := (Bool.and_eq_true _ _).mp quiet
    exact later.gaps there (first.gaps here before)
  keeps quiet before := by
    obtain ⟨here, there⟩ := (Bool.and_eq_true _ _).mp quiet
    exact later.keeps there (first.keeps here before)
  shows appears := by
    rcases (Bool.or_eq_true _ _).mp appears with here | there
    · exact later.shown (first.shows here)
    · exact later.shows there
  leads begins before := by
    rcases (Bool.or_eq_true _ _).mp begins with here | behind
    · exact later.begun (first.leads here before)
    · obtain ⟨here, there⟩ := (Bool.and_eq_true _ _).mp behind
      exact later.leads there (first.gaps here before)
  trails finishes := by
    rcases (Bool.or_eq_true _ _).mp finishes with there | before
    · exact later.trails there
    · obtain ⟨there, here⟩ := (Bool.and_eq_true _ _).mp before
      exact later.keeps there (first.trails here)
  begun before := later.begun (first.begun before)
  shown before := later.shown (first.shown before)

/-- What the rule of an element within a line writes for its content. -/
inductive Wrote (n : Marked) (content written : Chars) : Prop where
  | nothing (empty : written = []) (hollow : n.isHollow = true)
  | object (kept : n.isHollow = false) (object : n.isObject = true) (leads : Leads written) (trails : Trails written)
  | wrapped (kept : n.isHollow = false) (plain : n.isObject = false) (void : content = [] → written = [])
      (solid : Seen content → Leads written ∧ Trails written)
  | same (kept : n.isHollow = false) (plain : n.isObject = false) (other : emphasizedTags.contains n.tag = false)
      (whole : written = content)

theorem chosen_solid (text content preferred alternate : Chars) (first : Leads preferred ∧ Trails preferred)
    (other : Leads alternate ∧ Trails alternate) : Leads (Inline.chooseDelimiter text content preferred alternate) ∧
      Trails (Inline.chooseDelimiter text content preferred alternate) := by
  unfold Inline.chooseDelimiter
  split
  · exact first
  · split
    · exact other
    · exact first

theorem delimited_solid (text content preferred alternate : Chars) (first : Leads preferred ∧ Trails preferred)
    (other : Leads alternate ∧ Trails alternate) (seen : Seen content) :
    Leads (Inline.delimited text content preferred alternate) ∧
      Trails (Inline.delimited text content preferred alternate) := by
  obtain ⟨leads, trails⟩ := chosen_solid text content preferred alternate first other
  rw [Inline.delimited, if_neg (by rw [(seen_iff content).mp seen]; exact Bool.false_ne_true)]
  dsimp only
  rw [List.append_assoc]
  exact ⟨leads_append _ _ leads, trails_append _ _ (trails_append _ _ trails)⟩

theorem span_solid (code : Chars) (some : code ≠ []) : Leads (Code.span code) ∧ Trails (Code.span code) := by
  obtain ⟨n, longer⟩ := Nat.exists_eq_succ_of_ne_zero (Code.span_fresh (Code.flattenLines code)).1
  have first : Leads (List.replicate (Code.spanLength (Code.flattenLines code)) '`') := by
    rw [longer]
    exact solid_leads '`' _ rfl
  have last : Trails (List.replicate (Code.spanLength (Code.flattenLines code)) '`') := by
    rw [trails_reverse, List.reverse_replicate]
    exact first
  rw [Code.span, if_neg (by simpa using some)]
  dsimp only
  rw [List.append_assoc, List.append_assoc, List.append_assoc]
  exact ⟨leads_append _ _ first,
    trails_append _ _ (trails_append _ _ (trails_append _ _ (trails_append _ _ last)))⟩

theorem em_solid (d : EmDelimiter) : Leads d.text ∧ Trails d.text := by cases d <;> exact ⟨rfl, rfl⟩

theorem strong_solid (d : StrongDelimiter) : Leads d.text ∧ Trails d.text := by cases d <;> exact ⟨rfl, rfl⟩

theorem suffix_ends (text url : Chars) (title : Option Chars) (style : LabelStyle) (s u : State) (suffix : Chars)
    (worked : Link.referenceSuffix text url title style s = .ok suffix u) :
    suffix = [] ∨ ∃ front, suffix = front ++ [']'] := by
  unfold Link.referenceSuffix at worked
  split at worked
  · obtain ⟨label, t, -, ended⟩ := (bind_ok_iff _ _ _ _ _).mp worked
    cases ended
    exact .inr ⟨'[' :: label, rfl⟩
  · obtain ⟨label, t, -, ended⟩ := (bind_ok_iff _ _ _ _ _).mp worked
    split at ended
    · cases ended
      exact .inr ⟨'[' :: label, rfl⟩
    · cases ended
      split
      · exact .inr ⟨['['], rfl⟩
      · exact .inl rfl

theorem suffix_trails (front suffix : Chars) (ends : suffix = [] ∨ ∃ inner, suffix = inner ++ [']']) :
    Trails (front ++ ']' :: suffix) := by
  rcases ends with rfl | ⟨inner, rfl⟩
  · exact solid_trails front ']' rfl
  · rw [← List.cons_append, ← List.append_assoc]
    exact solid_trails _ ']' rfl

theorem target_trails (front url : Chars) (title : Option Chars) :
    Trails (front ++ ']' :: Link.target url title) := by
  rw [Link.target, ← List.cons_append, ← List.append_assoc]
  exact solid_trails _ ')' rfl

-- Of the rules of plain Markdown, only those for code blocks do not ask for the children.
theorem unrendered_code (site : Site) (o : Options) (rule : Rule) (listed : rule ∈ CommonMark.rules)
    (still : rule.rendersChildren = false) (claims : rule.claims site o = .ok true) : Code.isBlock site.node = true := by
  simp only [CommonMark.rules, List.mem_cons, List.not_mem_nil, or_false] at listed
  rcases listed with rfl | rfl | rfl | rfl | rfl | rfl | rfl | rfl | rfl | rfl | rfl | rfl | rfl | rfl | rfl | rfl
  case inr.inr.inr.inr.inr.inr.inl => exact ((Bool.and_eq_true _ _).mp (Except.ok.inj claims)).2
  case inr.inr.inr.inr.inr.inr.inr.inl => exact ((Bool.and_eq_true _ _).mp (Except.ok.inj claims)).2
  all_goals cases still

theorem unrendered_block (site : Site) (o : Options) (rule : Rule) (listed : rule ∈ CommonMark.rules)
    (still : rule.rendersChildren = false) (claims : rule.claims site o = .ok true) : site.node.isBlock = true :=
  named_pre _ ((Bool.and_eq_true _ _).mp (unrendered_code site o rule listed still claims)).1

section

variable (o : Options) (m : Mark) (t : String) (a : Attrs) (ks : List Marked) (path : List Step)

theorem image_wrote (content written : Chars) (s u : State) (named : t = "img")
    (solid : isBlank (.element m t a ks) = false)
    (worked : Link.image content ⟨.element m t a ks, path⟩ o s = .ok written u) :
    Wrote (.element m t a ks) content written := by
  subst named
  unfold Link.image at worked
  by_cases empty : (Node.attr "src" (.element m "img" a ks : Marked)).isEmpty
  · simp only [empty, if_true] at worked
    cases worked
    exact .nothing rfl ((Bool.or_eq_true _ _).mpr (.inr empty))
  · have object : isObject (.element m "img" a ks) = true := by simp [isObject, isNamed, empty]
    have kept : isHollow (.element m "img" a ks) = false := by
      simp [isHollow, solid, isNamed, empty, Node.tag, removedTags]
    simp only [empty, Bool.false_eq_true, if_false] at worked
    split at worked
    · obtain ⟨rest, v, made, ended⟩ := (bind_ok_iff _ _ _ _ _).mp worked
      cases ended
      exact .object kept object (solid_leads '!' _ rfl)
        (suffix_trails ('!' :: '[' :: Link.imageText _) rest (suffix_ends _ _ _ _ _ _ _ made))
    · cases worked
      exact .object kept object (solid_leads '!' _ rfl) (target_trails ('!' :: '[' :: Link.imageText _) _ _)

theorem link_wrote (solid : isBlank (.element m t a ks) = false) (content rest : Chars)
    (link : Link.isLink ⟨.element m t a ks, path⟩ = true) (trails : Trails ('[' :: content ++ ']' :: rest)) :
    Wrote (.element m t a ks) content ('[' :: content ++ ']' :: rest) := by
  have named : t = "a" := by simpa [isNamed] using ((Bool.and_eq_true _ _).mp link).1
  have object : isObject (.element m t a ks) = true := (Bool.or_eq_true _ _).mpr (.inl link)
  have kept : isHollow (.element m t a ks) = false := by
    rw [isHollow, solid]
    simp [isNamed, Node.tag, named, removedTags]
  exact .object kept object (solid_leads '[' _ rfl) trails

theorem wrapped_wrote (names : List String)
    (others : ∀ name ∈ names, removedTags.contains name = false ∧ name ≠ "a" ∧ name ≠ "img") (listed : t ∈ names)
    (solid : isBlank (.element m t a ks) = false) (content written : Chars) (void : content = [] → written = [])
    (ends : Seen content → Leads written ∧ Trails written) : Wrote (.element m t a ks) content written := by
  obtain ⟨unread, anchor, image⟩ := others t listed
  refine .wrapped ?_ ?_ void ends
  · rw [isHollow, solid, Node.tag, unread]
    simp [isNamed, image]
  · simp [isObject, isNamed, anchor, image]

theorem listed_wrote (inline : isWithinLine t = true) (solid : isBlank (.element m t a ks) = false)
    (content written : Chars) (s u : State) : ∀ rule ∈ CommonMark.rules,
      rule.claims ⟨.element m t a ks, path⟩ o = .ok true →
      rule.replacement content ⟨.element m t a ks, path⟩ o s = .ok written u →
      Wrote (.element m t a ks) content written := by
  have level : isBlockTag t = false := by simpa using ((Bool.and_eq_true _ _).mp inline).1
  have unbroken : t ≠ "br" := by simpa using ((Bool.and_eq_true _ _).mp inline).2
  have outside (rule : Rule) (names : List String) (filter : rule.filter = .tags names)
      (blocks : ∀ name ∈ names, isBlockTag name = true)
      (claims : rule.claims ⟨.element m t a ks, path⟩ o = .ok true) : Wrote (.element m t a ks) content written := by
    have block := named_block ⟨.element m t a ks, path⟩ o rule names filter blocks claims
    exact absurd (level.symm.trans block) Bool.false_ne_true
  have apart (named : isNamed "pre" (.element m t a ks) = true) : Wrote (.element m t a ks) content written :=
    absurd (level.symm.trans (named_pre _ named)) Bool.false_ne_true
  simp only [CommonMark.rules, List.forall_mem_cons]
  refine ⟨?paragraph, ?lineBreak, ?heading, ?quote, ?list, ?item, ?indented, ?fenced, ?preformatted, ?rule, ?inline,
    ?reference, ?emphasis, ?strong, ?code, ?image, by simp⟩
  case paragraph => exact fun claims _ => outside _ ["p"] rfl (by decide) claims
  case lineBreak =>
    intro claims
    have named : t = "br" := by simpa [Rule.claims, Site.tag, Node.tag] using claims
    exact absurd named unbroken
  case heading => exact fun claims _ => outside _ CommonMark.headingTags rfl (by decide) claims
  case quote => exact fun claims _ => outside _ ["blockquote"] rfl (by decide) claims
  case list => exact fun claims _ => outside _ ["ul", "ol"] rfl (by decide) claims
  case item => exact fun claims _ => outside _ ["li"] rfl (by decide) claims
  case indented | fenced =>
    intro claims _
    obtain ⟨-, block⟩ := (Bool.and_eq_true _ _).mp (Except.ok.inj claims)
    exact apart ((Bool.and_eq_true _ _).mp block).1
  case preformatted =>
    intro claims _
    exact apart ((Bool.and_eq_true _ _).mp (Except.ok.inj claims)).1
  case rule => exact fun claims _ => outside _ ["hr"] rfl (by decide) claims
  case inline =>
    intro claims worked
    obtain rfl := of_function_ok _ content _ o s u written worked
    obtain ⟨-, link⟩ := (Bool.and_eq_true _ _).mp (Except.ok.inj claims)
    exact link_wrote m t a ks path solid content _ link (target_trails ('[' :: content) _ _)
  case reference =>
    intro claims worked
    obtain ⟨-, link⟩ := (Bool.and_eq_true _ _).mp (Except.ok.inj claims)
    obtain ⟨suffix, v, made, ended⟩ := (bind_ok_iff _ _ _ _ _).mp worked
    cases ended
    exact link_wrote m t a ks path solid content suffix link
      (suffix_trails ('[' :: content) suffix (suffix_ends _ _ _ _ _ _ _ made))
  case emphasis =>
    intro claims worked
    have listed : t ∈ ["em", "i"] := List.contains_iff_mem.mp (Except.ok.inj claims)
    obtain rfl := of_function_ok _ content _ o s u written worked
    exact wrapped_wrote m t a ks ["em", "i"] (by decide) listed solid content _ (by rintro rfl; rfl)
      (delimited_solid _ content _ _ (em_solid _) (em_solid _))
  case strong =>
    intro claims worked
    have listed : t ∈ ["strong", "b"] := List.contains_iff_mem.mp (Except.ok.inj claims)
    obtain rfl := of_function_ok _ content _ o s u written worked
    exact wrapped_wrote m t a ks ["strong", "b"] (by decide) listed solid content _ (by rintro rfl; rfl)
      (delimited_solid _ content _ _ (strong_solid _) (strong_solid _))
  case code =>
    intro claims worked
    obtain ⟨code, -⟩ := (Bool.and_eq_true _ _).mp (Except.ok.inj claims)
    have listed : t ∈ ["code"] := by simpa [isNamed] using code
    obtain rfl := of_function_ok _ content _ o s u written worked
    refine wrapped_wrote m t a ks ["code"] (by decide) listed solid content _ (by rintro rfl; rfl) fun seen => ?_
    obtain ⟨c, member, -⟩ := seen
    exact span_solid content (List.ne_nil_of_mem member)
  case image =>
    intro claims worked
    have listed : t ∈ ["img"] := List.contains_iff_mem.mp (Except.ok.inj claims)
    exact image_wrote o m t a ks path content written s u (by simpa using listed) solid worked

-- The default rule is left with what is neither dropped nor an object, wherever a code element stands.
theorem default_wrote (inline : isWithinLine t = true) (solid : isBlank (.element m t a ks) = false)
    (content written : Chars) (s u : State) (none : RuleTable.firstClaim ⟨.element m t a ks, path⟩ o
      ({} : RuleTable).inOrder = .ok none)
    (worked : Rule.default.replacement content ⟨.element m t a ks, path⟩ o s = .ok written u) :
    Wrote (.element m t a ks) content written := by
  have level : isBlockTag t = false := by simpa using ((Bool.and_eq_true _ _).mp inline).1
  have refused := (RuleTable.first_claim_none_iff _ o _).mp none
  have image := refused_names _ _ o refused 15 _ ["img"] rfl rfl
  have em := refused_names _ _ o refused 12 _ ["em", "i"] rfl rfl
  have strong := refused_names _ _ o refused 13 _ ["strong", "b"] rfl rfl
  have script := refused_names _ _ o refused 16 _ ["script"] rfl rfl
  have style := refused_names _ _ o refused 17 _ ["style"] rfl rfl
  have template := refused_names _ _ o refused 18 _ ["template"] rfl rfl
  have noscript := refused_names _ _ o refused 19 _ ["noscript"] rfl rfl
  have inlined := refused_predicate _ _ o refused 10 _
    (fun site o => o.linkStyle = .inlined && Link.isLink site) rfl rfl
  have referenced := refused_predicate _ _ o refused 11 _
    (fun site o => o.linkStyle = .referenced && Link.isLink site) rfl rfl
  have link : Link.isLink ⟨.element m t a ks, path⟩ = false := by
    cases style : o.linkStyle with
    | inlined => simpa [style] using inlined
    | referenced => simpa [style] using referenced
  simp only [List.mem_cons, List.not_mem_nil, or_false, not_or, Site.tag, Node.tag] at image em strong
  simp only [List.mem_singleton, Site.tag, Node.tag] at script style template noscript
  have kept : isHollow (.element m t a ks) = false := by
    simp [isHollow, solid, removedTags, Node.tag, isNamed, image, script, style, template, noscript]
  have plain : isObject (.element m t a ks) = false := by
    have anchor : (isNamed "a" (.element m t a ks) && !(Node.attr "href" (.element m t a ks : Marked)).isEmpty) =
        false := link
    rw [isObject, anchor]
    simp [isNamed, image]
  have other : emphasizedTags.contains t = false := by simp [emphasizedTags, em, strong]
  change Rule.defaultReplacement content ⟨.element m t a ks, path⟩ o s = .ok written u at worked
  obtain rfl := of_function_ok _ content _ o s u written worked
  exact .same kept plain other (if_neg (by simpa [isBlock, Node.tag] using level))

theorem rule_wrote (inline : isWithinLine t = true) (flagged : m.blank = isBlank (.element m t a ks)) (rule : Rule)
    (found : ({} : RuleTable).find ⟨.element m t a ks, path⟩ o m.blank = .ok rule) (content written : Chars)
    (s u : State) (worked : rule.replacement content ⟨.element m t a ks, path⟩ o s = .ok written u) :
    Wrote (.element m t a ks) content written := by
  have level : isBlockTag t = false := by simpa using ((Bool.and_eq_true _ _).mp inline).1
  rcases RuleTable.find_cases {} _ o m.blank rule found with
    ⟨blank, rfl⟩ | ⟨solid, listed, claims⟩ | ⟨solid, rfl, none⟩
  · change Rule.blankReplacement content ⟨.element m t a ks, path⟩ o s = .ok written u at worked
    obtain rfl := of_function_ok _ content _ o s u written worked
    exact .nothing (if_neg (by simpa [isBlock, Node.tag] using level)) (by rw [isHollow, ← flagged, blank]; rfl)
  · rcases List.mem_append.mp listed with builtin | removed
    · exact listed_wrote o m t a ks path inline (flagged.symm.trans solid) content written s u rule
        (by simpa using builtin) claims worked
    · obtain ⟨tag, member, rfl⟩ := List.mem_map.mp removed
      change Rule.removeReplacement content ⟨.element m t a ks, path⟩ o s = .ok written u at worked
      have named : t = tag := by simpa [Rule.claims, Rule.remove, Site.tag, Node.tag] using claims
      refine .nothing (of_function_ok _ content _ o s u written worked) ?_
      rw [isHollow, Node.tag, named, List.contains_iff_mem.mpr member, Bool.or_true, Bool.true_or]
  · exact default_wrote o m t a ks path inline (flagged.symm.trans solid) content written s u none worked

-- The rules that do not ask for the children of an element within a line drop the element.
theorem unrendered_hollow (inline : isWithinLine t = true) (rule : Rule)
    (found : ({} : RuleTable).find ⟨.element m t a ks, path⟩ o m.blank = .ok rule)
    (still : rule.rendersChildren = false) : isHollow (.element m t a ks) = true := by
  have level : isBlockTag t = false := by simpa using ((Bool.and_eq_true _ _).mp inline).1
  rcases RuleTable.find_cases {} _ o m.blank rule found with ⟨-, rfl⟩ | ⟨-, listed, claims⟩ | ⟨-, rfl, -⟩
  · cases still
  · rcases List.mem_append.mp listed with builtin | removed
    · have block := unrendered_block ⟨.element m t a ks, path⟩ o rule (by simpa using builtin) still claims
      exact absurd (level.symm.trans block) Bool.false_ne_true
    · obtain ⟨tag, member, rfl⟩ := List.mem_map.mp removed
      have named : t = tag := by simpa [Rule.claims, Rule.remove, Site.tag, Node.tag] using claims
      rw [isHollow, Node.tag, named, List.contains_iff_mem.mpr member, Bool.or_true, Bool.true_or]
  · cases still

end

theorem replace_split (rule : Rule) (site : Site) (o : Options) (flowing : o.preformattedCode = false)
    (level : site.node.isBlock = false) (content preceding written : Chars) (s u : State)
    (worked : replace rule site o content preceding s = .ok written u) :
    ∃ inner trailing,
      written = (if endsInGap preceding then [] else (Whitespace.flanking content).1) ++ inner ++ trailing ∧
      Gaps trailing ∧ rule.replacement (Whitespace.flanking content).2.1 site o s = .ok inner u := by
  have cases_ := replace_cases rule site o content preceding written s u worked
  rw [level, flowing, Bool.false_and, Bool.or_false, if_neg Bool.false_ne_true] at cases_
  obtain ⟨inner, trailing, replaced, whole, last⟩ := cases_
  refine ⟨inner, trailing, whole, (gaps_iff _).mpr ?_, replaced⟩
  rcases last with rfl | rfl
  · simp
  · exact (flanking_gaps content).2

theorem replace_parts (rule : Rule) (site : Site) (o : Options) (flowing : o.preformattedCode = false)
    (level : site.node.isBlock = false) (content preceding written : Chars) (s u : State)
    (worked : replace rule site o content preceding s = .ok written u) :
    ∃ leading inner trailing t, written = leading ++ inner ++ trailing ∧ Gaps leading ∧ Gaps trailing ∧
      rule.replacement (Whitespace.flanking content).2.1 site o s = .ok inner t := by
  obtain ⟨inner, trailing, whole, last, replaced⟩ :=
    replace_split rule site o flowing level content preceding written s u worked
  refine ⟨_, inner, trailing, u, whole, (gaps_iff _).mpr ?_, last, replaced⟩
  split
  · simp
  · exact (flanking_gaps content).1

theorem writes_around (silent seen starts ends : Bool) (leading inner trailing : Chars) (first : Gaps leading)
    (last : Gaps trailing) (writes : Writes silent seen starts ends inner) :
    Writes silent seen starts ends (leading ++ inner ++ trailing) where
  gaps quiet := gaps_append _ _ (gaps_append _ _ first (writes.gaps quiet)) last
  shows appears := seen_part inner _ (fun c member _ => by simp [member]) (writes.shows appears)
  leads begins := leads_append _ _ (leads_behind _ _ first (writes.leads begins))
  trails finishes := trails_before _ _ (trails_append _ _ (writes.trails finishes)) last

theorem flanking_ends (content : Chars) : (Gaps content → (Whitespace.flanking content).2.1 = []) ∧
    (Leads content → Leads (Whitespace.flanking content).2.1) ∧
      (Trails content → Trails (Whitespace.flanking content).2.1) := by
  have same := flanking_gapless content
  refine ⟨fun gaps => ?_, fun leads => ?_, fun trails => ?_⟩
  · have first := gapless_head _ (flanking_stops content).1
    rw [same, show gapless content = [] from gaps] at first
    exact List.head?_eq_none_iff.mp first.symm
  · rwa [Leads, same]
  · rwa [Trails, same]

theorem flanking_seen (content : Chars) (seen : Seen content) : Seen (Whitespace.flanking content).2.1 := by
  refine seen_part content _ (fun c member solid => ?_) seen
  have inside : c ∈ gapless content := List.mem_filter.mpr ⟨member, by simp [solid_not_gap c solid]⟩
  rw [← flanking_gapless] at inside
  exact (List.mem_filter.mp inside).1

section

variable (o : Options) (flowing : o.preformattedCode = false)

include flowing

theorem text_writes (s : State) (opened : List Open) (m : Mark) (data : Chars)
    (regapped : Regapped (shown m data) data) : Writes (isSilent (.text m data)) (isInked (.text m data))
      (startsSolid (.text m data)) (endsSolid (.text m data)) (textOutput s o opened m data) := by
  have same := regapped_gapless _ _ regapped
  have read : s.textOf o m data = shown m data := text_noted o s flowing m data
  have own : Writes (isSilent (.text m data)) (isInked (.text m data)) (startsSolid (.text m data))
      (endsSolid (.text m data)) (shown m data) := by
    refine ⟨fun silent => ?_, fun appears => ?_, fun starts => ?_, fun ends => ?_⟩
    · rw [Gaps, same]
      exact List.isEmpty_iff.mp silent
    · have found : (ink data).any (fun c => !Text.isBlank c) = true := appears
      obtain ⟨c, inside, solid⟩ := List.any_eq_true.mp found
      rw [← same] at inside
      exact ⟨c, (List.mem_filter.mp inside).1, by simpa using solid⟩
    · rw [Leads, same]
      exact starts
    · rw [Trails, same]
      exact ends
  have escaped (special w : Chars) (common : ∀ c ∈ special, Text.isGap c = false)
      (spelled : Escape.Spelled special true (shown m data) w) : Writes (isSilent (.text m data))
        (isInked (.text m data)) (startsSolid (.text m data)) (endsSolid (.text m data)) w :=
    ⟨fun silent => spelled_gaps special common true _ w spelled (own.gaps silent),
      fun appears => seen_part _ w (fun c member _ => spelled_kept special true _ w spelled c member)
        (own.shows appears),
      fun starts => spelled_leads special true _ w spelled (own.leads starts),
      fun ends => spelled_trails special common true _ w spelled (own.trails ends)⟩
  rw [textOutput, read]
  dsimp only
  split
  · exact own
  · split
    · exact escaped Escape.allSpecial _ (by simp [Escape.allSpecial, Text.isGap]) (Escape.preformatted_spelled _ _)
    · exact escaped Escape.inlineSpecial _ (by simp [Escape.inlineSpecial, Text.isGap]) (Escape.markdown_spelled _ _)

omit flowing in
theorem wrote_writes (m : Mark) (t : String) (a : Attrs) (ks : List Marked) (inline : isWithinLine t = true)
    (content inner : Chars) (wrote : Wrote (.element m t a ks) (Whitespace.flanking content).2.1 inner)
    (passes : isHollow (.element m t a ks) = false →
      Passes (allSilent ks) (anyInked ks) (startSolid ks) (endSolid ks) [] content) :
    Writes (isSilent (.element m t a ks)) (isInked (.element m t a ks)) (startsSolid (.element m t a ks))
      (endsSolid (.element m t a ks)) inner := by
  obtain ⟨none, front, back⟩ := flanking_ends content
  have shown := flanking_seen content
  simp only [isSilent, isInked, startsSolid, endsSolid, inline, Bool.true_and]
  cases wrote with
  | nothing empty hollow =>
      simp only [hollow, Bool.not_true, Bool.false_and]
      exact ⟨fun _ => empty ▸ rfl, Bool.noConfusion, Bool.noConfusion, Bool.noConfusion⟩
  | object kept object starts ends =>
      simp only [kept, object]
      exact ⟨by simp, fun _ => leads_seen inner starts, fun _ => starts, fun _ => ends⟩
  | wrapped kept plain void solid =>
      obtain ⟨quiet, -, appears, starts, ends, -, -⟩ := passes kept
      simp only [kept, plain, Bool.not_false, Bool.true_and, Bool.false_or]
      refine ⟨fun silent => ?_, fun seen => ?_, fun begins => (solid ?_).1, fun finishes => (solid ?_).2⟩
      · rw [void (none (quiet silent rfl))]
        rfl
      · exact leads_seen inner (solid (shown (appears seen))).1
      · split at begins
        · exact shown (appears begins)
        · exact leads_seen _ (front (starts begins rfl))
      · split at finishes
        · exact shown (appears finishes)
        · exact trails_seen _ (back (ends finishes))
  | same kept plain other whole =>
      obtain ⟨quiet, -, appears, starts, ends, -, -⟩ := passes kept
      have named : emphasizedTags.contains t = false := other
      subst whole
      simp only [kept, plain, named, Bool.not_false, Bool.true_and, Bool.false_or, Bool.false_eq_true, if_false]
      refine ⟨fun silent => ?_, fun seen => shown (appears seen), fun begins => front (starts begins rfl),
        fun finishes => back (ends finishes)⟩
      rw [none (quiet silent rfl)]
      rfl

theorem element_writes (outer : List Open) (isBlock : Bool) (path : List Step) (output : Chars) (m : Mark)
    (t : String) (a : Attrs) (ks : List Marked) (flagged : m.blank = isBlank (.element m t a ks))
    (below : ∀ outer isBlock content s u, nodes {} o outer isBlock (.element m t a) path [] [] ks s = .ok content u →
      Passes (allSilent ks) (anyInked ks) (startSolid ks) (endSolid ks) [] content)
    (written : Chars) (s u : State) (worked : elementText {} o outer isBlock path output m t a ks s = .ok written u) :
    Writes (isSilent (.element m t a ks)) (isInked (.element m t a ks)) (startsSolid (.element m t a ks))
      (endsSolid (.element m t a ks)) written := by
  cases inline : isWithinLine t with
  | false =>
      simp only [isSilent, isInked, startsSolid, endsSolid, inline, Bool.false_and]
      exact ⟨Bool.noConfusion, Bool.noConfusion, Bool.noConfusion, Bool.noConfusion⟩
  | true =>
      have level : Node.isBlock (.element m t a ks) = false := by
        simpa [Node.isBlock, Node.tag] using ((Bool.and_eq_true _ _).mp inline).1
      obtain ⟨rule, content, s₁, s₂, s₃, found, read, replaced⟩ :=
        element_ok {} o outer isBlock path output m t a ks written s u worked
      obtain ⟨leading, inner, trailing, s₄, rfl, first, last, made⟩ :=
        replace_parts rule ⟨.element m t a ks, path⟩ o flowing level content output written s₂ s₃ replaced
      have wrote := rule_wrote o m t a ks path inline flagged rule found _ inner _ _ made
      refine writes_around _ _ _ _ leading inner trailing first last ?_
      refine wrote_writes m t a ks inline content inner wrote fun kept => ?_
      unfold contentText at read
      split at read
      · exact below _ _ content _ _ read
      · rename_i still
        rw [unrendered_hollow o m t a ks path inline rule found (by simpa using still)] at kept
        cases kept

end

mutual

theorem node_passes (o : Options) (flowing : o.preformattedCode = false) (outer : List Open) (isBlock : Bool)
    (path : List Step) (output : Chars) (n : Marked) (noted : Noted [n]) (flagged : Flagged n) (out : Chars)
    (s u : State) (worked : node {} o outer isBlock path output n s = .ok out u) :
    Passes (isSilent n) (isInked n) (startsSolid n) (endsSolid n) output out := by
  cases n with
  | text m data =>
      cases worked
      exact passes_join _ _ _ _ output _ (text_writes o flowing s _ m data ((noted_text m data).mp noted))
  | comment m data | document m ks =>
      cases worked
      exact passes_same output
  | element m t a ks =>
      rw [node_element] at worked
      obtain ⟨written, v, wrote, ended⟩ := (bind_ok_iff _ _ _ _ _).mp worked
      cases ended
      have blank : m.blank = Node.isBlank (.element m t a ks) := by rw [flagged.1, element_blank _ rfl]
      exact passes_join _ _ _ _ output written (element_writes o flowing outer isBlock path output m t a ks blank
        (fun outer isBlock content s u => nodes_passes o flowing outer isBlock _ path [] [] ks
          ((noted_element m t a ks).mp noted) flagged.2 content s u) written s _ wrote)

theorem nodes_passes (o : Options) (flowing : o.preformattedCode = false) (outer : List Open) (isBlock : Bool)
    (head : Head) (path : List Step) (before : List Marked) (output : Chars) (ks : List Marked) (noted : Noted ks)
    (flagged : FlaggedAll ks) (out : Chars) (s u : State)
    (worked : nodes {} o outer isBlock head path before output ks s = .ok out u) :
    Passes (allSilent ks) (anyInked ks) (startSolid ks) (endSolid ks) output out := by
  cases ks with
  | nil =>
      cases worked
      exact passes_same output
  | cons n rest =>
      rw [nodes] at worked
      obtain ⟨middle, v, here, later⟩ := (bind_ok_iff _ _ _ _ _).mp worked
      rw [noted_cons] at noted
      exact passes_both _ _ _ _ _ _ _ _ output middle out
        (node_passes o flowing outer isBlock _ output n noted.1 flagged.1 middle s v here)
        (nodes_passes o flowing outer isBlock head path _ middle rest noted.2 flagged.2 out v u later)

end

end Render

end Downmark
