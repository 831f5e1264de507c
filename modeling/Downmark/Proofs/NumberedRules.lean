import Downmark.Proofs.Carried
import Downmark.Proofs.PlainElements
import Downmark.Proofs.Tracking
/-!
Single rules that ask for the numbers of targets, and the same rules knowing them. Main statement: whatever rule
claims an element, both write the same, the collector then knows the target of the element, and nothing is lost
of the suffixes in its content.
-/

set_option autoImplicit false

namespace Downmark.Render

open Node

def suffixes (ts found : List Target) : List Chars := found.map (suffix (numberOf ts))

theorem suffixes_compact (ts found : List Target) : ∀ piece ∈ suffixes ts found, Compact piece := by
  intro piece member
  obtain ⟨t, -, rfl⟩ := List.mem_map.mp member
  refine ⟨List.cons_ne_nil _ _, fun c inside => ?_⟩
  simp only [suffix, List.cons_append, List.mem_cons, List.mem_append, List.not_mem_nil, or_false] at inside
  rcases inside with rfl | digit | rfl
  · rfl
  · exact Text.digit_not_blank c (Text.of_nat_digits _ c digit)
  · rfl

section

variable (ts : List Target)

section

variable (o : Options) (m : Mark) (t : String) (a : Attrs) (ks : List Marked) (path : List Step)

-- What is made of the content of an element by its rule.
structure Treated (rule : Rule) (inner own : List Target) : Prop where
  targets : targets (.element m t a ks) = inner ++ own
  content : inner = if rule.rendersChildren then targetsOf ks else []
  tracks : ∀ content, Carries (suffixes ts inner) content →
    Tracks ts (rule.replacement content ⟨.element m t a ks, path⟩ o)
      ((numberedRule (numberOf ts) rule).replacement content ⟨.element m t a ks, path⟩ o) own
      (Carries (suffixes ts (inner ++ own))) False

theorem plain_targets (read : isUnread (.element m t a ks) = false) (link : t ≠ "a") (image : t ≠ "img") :
    targets (.element m t a ks) = targetsOf ks := by
  have none : target? (.element m t a ks) = none := by simp [target?, isNamed, link, image]
  rw [targets, read, if_neg Bool.false_ne_true, none]
  exact List.append_nil _

-- A rule that asks for nothing and drops nothing.
theorem treated_plain (rule : Rule) (other : rule.name ≠ "reference-link" ∧ rule.name ≠ "image")
    (renders : rule.rendersChildren = true) (plain : targets (.element m t a ks) = targetsOf ks)
    (told : ∀ content s s', Alike s s' → ∃ written,
      rule.replacement content ⟨.element m t a ks, path⟩ o s = .ok written s ∧
      rule.replacement content ⟨.element m t a ks, path⟩ o s' = .ok written s' ∧
      (Carries (suffixes ts (targetsOf ks)) content → Carries (suffixes ts (targetsOf ks)) written)) :
    Treated ts o m t a ks path rule (targetsOf ks) [] := by
  refine ⟨by rw [plain, List.append_nil], by rw [renders, if_pos rfl], fun content carries => ?_⟩
  rw [numbered_other _ rule other, List.append_nil]
  refine tracks_told fun s s' alike => ?_
  obtain ⟨written, here, there, keeps⟩ := told content s s' alike
  exact ⟨written, here, there, keeps carries⟩

-- A rule that writes the same in all states.
theorem treated_function (rule : Rule) (f : Chars → Site → Options → Chars)
    (writes : rule.replacement = .ofFunction fun content site o _ => f content site o)
    (other : rule.name ≠ "reference-link" ∧ rule.name ≠ "image") (renders : rule.rendersChildren = true)
    (plain : targets (.element m t a ks) = targetsOf ks)
    (keeps : ∀ content, Carries (suffixes ts (targetsOf ks)) content →
      Carries (suffixes ts (targetsOf ks)) (f content ⟨.element m t a ks, path⟩ o)) :
    Treated ts o m t a ks path rule (targetsOf ks) [] := by
  refine treated_plain ts o m t a ks path rule other renders plain fun content s s' _ => ?_
  rw [writes]
  exact ⟨_, rfl, rfl, keeps content⟩

omit ts in
theorem named_targets (names : List String) (plain : ∀ name ∈ names, name ≠ "a" ∧ name ≠ "img" ∧ name ≠ "pre" ∧
    removedTags.contains name = false) (listed : t ∈ names) : targets (.element m t a ks) = targetsOf ks := by
  obtain ⟨link, image, pre, kept⟩ := plain t listed
  refine plain_targets m t a ks ?_ link image
  have block : Code.isBlock (.element m t a ks) = false := by simp [Code.isBlock, isNamed, pre]
  rw [isUnread, block, Bool.false_or]
  exact kept

theorem treated_named (rule : Rule) (names : List String) (f : Chars → Site → Options → Chars)
    (filter : rule.filter = .tags names)
    (writes : rule.replacement = .ofFunction fun content site o _ => f content site o)
    (plain : ∀ name ∈ names, name ≠ "a" ∧ name ≠ "img" ∧ name ≠ "pre" ∧ removedTags.contains name = false)
    (other : rule.name ≠ "reference-link" ∧ rule.name ≠ "image") (renders : rule.rendersChildren = true)
    (keeps : ∀ content, t ∈ names → Carries (suffixes ts (targetsOf ks)) content →
      Carries (suffixes ts (targetsOf ks)) (f content ⟨.element m t a ks, path⟩ o))
    (claims : rule.claims ⟨.element m t a ks, path⟩ o = .ok true) :
    ∃ inner own, Treated ts o m t a ks path rule inner own := by
  have listed := claimed_named o m t a ks path rule names filter claims
  exact ⟨_, _, treated_function ts o m t a ks path rule f writes other renders
    (named_targets m t a ks names plain listed) fun content => keeps content listed⟩

theorem treated_item (rule : Rule) (filter : rule.filter = .tags ["li"]) (writes : rule.replacement = Block.listItem)
    (other : rule.name ≠ "reference-link" ∧ rule.name ≠ "image") (renders : rule.rendersChildren = true)
    (claims : rule.claims ⟨.element m t a ks, path⟩ o = .ok true) :
    ∃ inner own, Treated ts o m t a ks path rule inner own := by
  have plain := named_targets m t a ks ["li"] (by decide) (claimed_named o m t a ks path rule ["li"] filter claims)
  refine ⟨_, _, treated_plain ts o m t a ks path rule other renders plain fun content s s' alike => ?_⟩
  rw [writes]
  refine ⟨_, rfl, ?_, fun carries => ?_⟩
  · have same := following_alike o s s' alike ⟨.element m t a ks, path⟩
    dsimp only
    rw [same]
    rfl
  · have item := carries_item _ (suffixes_compact ts _) (Block.markerOf o ⟨.element m t a ks, path⟩) content carries
    dsimp only
    split
    · exact carries_after _ _ ['\n'] item
    · exact item

-- Rules that do not look at what is rendered of an element.
theorem treated_unread (rule : Rule) (other : rule.name ≠ "reference-link" ∧ rule.name ≠ "image")
    (drops : rule.rendersChildren = false) (unread : isUnread (.element m t a ks) = true)
    (told : ∀ content, ∃ written, ∀ s, rule.replacement content ⟨.element m t a ks, path⟩ o s = .ok written s) :
    Treated ts o m t a ks path rule [] [] := by
  refine ⟨by rw [Node.targets, unread, if_pos rfl]; rfl, by rw [drops, if_neg Bool.false_ne_true], fun content _ => ?_⟩
  rw [numbered_other _ rule other]
  obtain ⟨written, writes⟩ := told content
  exact tracks_told fun s s' _ => ⟨written, writes s, writes s', trivial⟩

-- Both rules for code blocks write what is read off the tree.
theorem treated_code_block (rule : Rule) (other : rule.name ≠ "reference-link" ∧ rule.name ≠ "image")
    (drops : rule.rendersChildren = false) (block : Code.isBlock (.element m t a ks) = true)
    (write : Chars → Chars → Chars)
    (writes : ∀ content text info, Code.blockText (.element m t a ks) = .ok text →
      Code.language (.element m t a ks) = .ok info → ∀ s,
        rule.replacement content ⟨.element m t a ks, path⟩ o s = .ok (write text info) s) :
    ∃ inner own, Treated ts o m t a ks path rule inner own := by
  obtain ⟨text, info, read, told⟩ := block_read _ block
  have unread : isUnread (.element m t a ks) = true := by rw [isUnread, block, Bool.true_or]
  exact ⟨[], [], treated_unread ts o m t a ks path rule other drops unread fun content =>
    ⟨write text info, writes content text info read told⟩⟩

omit ts in
theorem own_target (owned : Target) (found : target? (.element m t a ks) = some owned)
    (read : isUnread (.element m t a ks) = false) : targets (.element m t a ks) = targetsOf ks ++ [owned] := by
  rw [targets, read, if_neg Bool.false_ne_true, found]
  rfl

theorem treated_link (full : o.labelStyle = .full) (rule : Rule) (name : rule.name = "reference-link")
    (writes : rule.replacement = Link.referenceLink) (renders : rule.rendersChildren = true)
    (link : Link.isLink ⟨.element m t a ks, path⟩ = true) :
    ∃ inner own, Treated ts o m t a ks path rule inner own := by
  let n : Marked := .element m t a ks
  let owned : Target := (n.attr "href", Link.title? n)
  have named : t = "a" := by
    have both := (Bool.and_eq_true _ _).mp link
    simpa [isNamed] using both.1
  have found : target? n = some owned := if_pos link
  have read : isUnread n = false := by
    simp [n, isUnread, Code.isBlock, isNamed, Node.tag, named, removedTags]
  refine ⟨targetsOf ks, [owned], own_target m t a ks owned found read, by rw [renders, if_pos rfl],
    fun content carries => ?_⟩
  have asks : rule.replacement content ⟨n, path⟩ o = Link.referenceSuffix content owned.1 owned.2 .full >>= fun rest =>
      pure ('[' :: content ++ ']' :: rest) := by rw [writes, ← full]; rfl
  have knows : (numberedRule (numberOf ts) rule).replacement content ⟨n, path⟩ o =
      pure ('[' :: content ++ ']' :: suffix (numberOf ts) owned) := by
    rw [numberedRule, if_pos name]
    rfl
  rw [asks, knows]
  refine reference_tracks ts content owned (fun rest => '[' :: content ++ ']' :: rest) _ ?_
  rw [suffixes, List.map_append]
  exact carries_append _ _ _ _ (carries_before _ ['['] content carries)
    (carries_before _ [']'] _ (carries_piece (suffix (numberOf ts) owned)))

theorem numbered_image (rule : Rule) (name : rule.name = "image") (content : Chars) :
    (numberedRule (numberOf ts) rule).replacement content ⟨.element m t a ks, path⟩ o =
      pure (if (attr "src" (.element m t a ks)).isEmpty then [] else
        '!' :: '[' :: Link.imageText (.element m t a ks) ++
          ']' :: suffix (numberOf ts) (attr "src" (.element m t a ks), Link.title? (.element m t a ks))) := by
  have other : rule.name ≠ "reference-link" := by rw [name]; decide
  rw [numberedRule, if_neg other, if_pos name]
  rfl

omit ts in
theorem image_target (image : t = "img") : target? (.element m t a ks) =
    if (attr "src" (.element m t a ks)).isEmpty then none
    else some (attr "src" (.element m t a ks), Link.title? (.element m t a ks)) := by
  have link : isNamed "a" (.element m t a ks) = false := by simp [isNamed, image]
  have named : isNamed "img" (.element m t a ks) = true := by simp [isNamed, image]
  rw [target?, link, named, Bool.false_and, if_neg Bool.false_ne_true, Bool.true_and]
  cases (attr "src" (.element m t a ks)).isEmpty <;> rfl

theorem treated_image (referenced : o.linkStyle = .referenced) (full : o.labelStyle = .full) (rule : Rule)
    (name : rule.name = "image") (writes : rule.replacement = Link.image) (renders : rule.rendersChildren = true)
    (image : t = "img") (empty : ks = []) : ∃ inner own, Treated ts o m t a ks path rule inner own := by
  let n : Marked := .element m t a ks
  let owned : Target := (n.attr "src", Link.title? n)
  have read : isUnread n = false := by
    simp [n, isUnread, Code.isBlock, isNamed, Node.tag, image, removedTags]
  have inner : suffixes ts (targetsOf ks) = [] := by rw [empty]; rfl
  have target := image_target m t a ks image
  by_cases source : (n.attr "src").isEmpty = true
  · rw [if_pos source] at target
    have targets : targets n = targetsOf ks := by
      rw [Node.targets, read, if_neg Bool.false_ne_true, target]
      exact List.append_nil _
    refine ⟨targetsOf ks, [], by rw [targets, List.append_nil], by rw [renders, if_pos rfl], fun content _ => ?_⟩
    have nothing : rule.replacement content ⟨n, path⟩ o = pure [] := by
      rw [writes]
      exact if_pos source
    rw [nothing, numbered_image ts o m t a ks path rule name, if_pos source, List.append_nil, inner]
    exact tracks_pure [] trivial
  · rw [if_neg source] at target
    refine ⟨targetsOf ks, [owned], own_target m t a ks owned target read, by rw [renders, if_pos rfl], fun content _ => ?_⟩
    have asks : rule.replacement content ⟨n, path⟩ o =
        Link.referenceSuffix (Link.imageText n) owned.1 owned.2 .full >>= fun rest =>
          pure ('!' :: '[' :: Link.imageText n ++ ']' :: rest) := by
      rw [writes, ← full]
      unfold Link.image
      dsimp only
      rw [if_neg source, if_pos referenced]
    rw [asks, numbered_image ts o m t a ks path rule name, if_neg source]
    refine reference_tracks ts _ owned (fun rest => '!' :: '[' :: Link.imageText n ++ ']' :: rest) _ ?_
    rw [suffixes, List.map_append, ← suffixes, inner]
    exact carries_before _ ('!' :: '[' :: Link.imageText n) _
      (carries_before _ [']'] _ (carries_piece (suffix (numberOf ts) owned)))

theorem listed_treated (referenced : o.linkStyle = .referenced) (full : o.labelStyle = .full)
    (voids : isVoidTag t = true → ks = []) : ∀ rule ∈ CommonMark.rules,
      rule.claims ⟨.element m t a ks, path⟩ o = .ok true → ∃ inner own, Treated ts o m t a ks path rule inner own := by
  have compact := suffixes_compact ts (targetsOf ks)
  have void (listed : isVoidTag t = true) (written : Chars) : Carries (suffixes ts (targetsOf ks)) written := by
    rw [voids listed]
    trivial
  simp only [CommonMark.rules, List.forall_mem_cons]
  refine ⟨?paragraph, ?lineBreak, ?heading, ?quote, ?list, ?item, ?indented, ?fenced, ?preformatted, ?thematic, ?inline,
    ?reference, ?emphasis, ?strong, ?code, ?image, by simp⟩
  case paragraph =>
    exact treated_named ts o m t a ks path _ _ _ rfl rfl (by decide) (by decide) rfl
      fun content _ => carries_apart _ content
  case lineBreak =>
    refine treated_named ts o m t a ks path _ _ _ rfl rfl (by decide) (by decide) rfl fun content listed _ => ?_
    exact void (by rw [List.mem_singleton.mp listed]; rfl) _
  case heading =>
    exact treated_named ts o m t a ks path _ _ _ rfl rfl (by decide) (by decide) rfl
      fun content _ carries => carries_apart _ _ (carries_heading _ compact _ _ content carries)
  case quote =>
    exact treated_named ts o m t a ks path _ _ _ rfl rfl (by decide) (by decide) rfl
      fun content _ carries => carries_apart _ _ (carries_quote _ compact content carries)
  case list =>
    refine treated_named ts o m t a ks path _ _ _ rfl rfl (by decide) (by decide) rfl fun content _ carries => ?_
    have under := carries_before _ ['\n'] content carries
    split
    · split
      · exact under
      · exact carries_apart _ content carries
    · exact carries_apart _ content carries
  case item => exact treated_item ts o m t a ks path _ rfl rfl (by decide) rfl
  case indented =>
    intro claims
    have block := ((Bool.and_eq_true _ _).mp (claimed_holds o m t a ks path _ _ rfl claims)).2
    refine treated_code_block ts o m t a ks path _ (by decide) rfl block (fun text _ => Block.apart (Code.indented text)) ?_
    intro content text info read _ s
    simp only [Block.indentedCode, read]
    rfl
  case fenced =>
    intro claims
    have block := ((Bool.and_eq_true _ _).mp (claimed_holds o m t a ks path _ _ rfl claims)).2
    refine treated_code_block ts o m t a ks path _ (by decide) rfl block
      (fun text info => Block.apart (Code.fenced o.fence.char info text)) ?_
    intro content text info read told s
    simp only [Block.fencedCode, read, told]
    rfl
  case preformatted =>
    intro claims
    obtain ⟨pre, flowing⟩ := (Bool.and_eq_true _ _).mp (claimed_holds o m t a ks path _ _ rfl claims)
    have named : t = "pre" := by simpa [isNamed] using pre
    have read : isUnread (.element m t a ks) = false := by
      rw [isUnread, Node.tag, Bool.or_eq_false_iff]
      exact ⟨by simpa using flowing, by rw [named]; decide⟩
    refine ⟨_, _, treated_function ts o m t a ks path _ _ rfl (by decide) rfl
      (plain_targets m t a ks read (by rw [named]; decide) (by rw [named]; decide)) fun content carries => ?_⟩
    exact carries_apart _ _ (carries_trim _ compact Text.isNewline newline_is_blank content carries)
  case thematic =>
    refine treated_named ts o m t a ks path _ _ _ rfl rfl (by decide) (by decide) rfl fun content listed _ => ?_
    exact void (by rw [List.mem_singleton.mp listed]; rfl) _
  case inline =>
    intro claims
    simp [Rule.claims, Filter.holds, referenced] at claims
  case reference =>
    intro claims
    have link := ((Bool.and_eq_true _ _).mp (claimed_holds o m t a ks path _ _ rfl claims)).2
    exact treated_link ts o m t a ks path full _ rfl rfl rfl link
  case emphasis =>
    exact treated_named ts o m t a ks path _ _ _ rfl rfl (by decide) (by decide) rfl
      fun content _ => carries_delimited _ compact _ content _ _
  case strong =>
    exact treated_named ts o m t a ks path _ _ _ rfl rfl (by decide) (by decide) rfl
      fun content _ => carries_delimited _ compact _ content _ _
  case code =>
    intro claims
    have span := (Bool.and_eq_true _ _).mp (claimed_holds o m t a ks path _ _ rfl claims)
    have named : t = "code" := by simpa [isNamed] using span.1
    exact ⟨_, _, treated_function ts o m t a ks path _ _ rfl (by decide) rfl
      (named_targets m t a ks ["code"] (by decide) (by simp [named])) fun content => carries_span _ compact content⟩
  case image =>
    intro claims
    have image : t = "img" := List.mem_singleton.mp (claimed_named o m t a ks path _ ["img"] rfl claims)
    exact treated_image ts o m t a ks path referenced full _ rfl rfl rfl image (voids (by rw [image]; rfl))

omit ts in
theorem default_targets (referenced : o.linkStyle = .referenced)
    (refused : ∀ rule ∈ ({} : RuleTable).inOrder, rule.claims ⟨.element m t a ks, path⟩ o = .ok false) :
    targets (.element m t a ks) = targetsOf ks := by
  have link : Link.isLink ⟨.element m t a ks, path⟩ = false := by
    have answer := refused_predicate _ _ o refused 11 _ (fun site o => o.linkStyle = .referenced && Link.isLink site)
      rfl rfl
    simpa [referenced] using answer
  have image : t ≠ "img" := by
    have answer := refused_names _ _ o refused 15 _ ["img"] rfl rfl
    simpa [Site.tag, Node.tag] using answer
  have block : Code.isBlock (.element m t a ks) = false := by
    have indented := refused_predicate _ _ o refused 6 _ (CommonMark.isCodeBlock .indented) rfl rfl
    have fenced := refused_predicate _ _ o refused 7 _ (CommonMark.isCodeBlock .fenced) rfl rfl
    cases style : o.codeBlockStyle with
    | indented => simpa [CommonMark.isCodeBlock, style] using indented
    | fenced => simpa [CommonMark.isCodeBlock, style] using fenced
  have kept : removedTags.contains t = false := by
    rw [Bool.eq_false_iff]
    intro inside
    have listed : ({ Rule.remove (.tags [t]) with name := "remove-" ++ t } : Rule) ∈ ({} : RuleTable).inOrder :=
      List.mem_append_right _ (List.mem_map_of_mem (List.contains_iff_mem.mp inside))
    simpa [Rule.claims, Rule.remove, Site.tag, Node.tag] using refused _ listed
  have none : target? (.element m t a ks) = none := by
    have noImage : Node.isNamed "img" (.element m t a ks) = false := by simpa [isNamed] using image
    have noLink : (Node.isNamed "a" (.element m t a ks) && !(attr "href" (.element m t a ks)).isEmpty) = false := link
    rw [target?, noLink, if_neg Bool.false_ne_true, noImage, Bool.false_and, if_neg Bool.false_ne_true]
  rw [targets, isUnread, block, Node.tag, kept, Bool.or_false, if_neg Bool.false_ne_true, none]
  exact List.append_nil _

theorem rule_treated (referenced : o.linkStyle = .referenced) (full : o.labelStyle = .full)
    (voids : isVoidTag t = true → ks = []) (flagged : m.blank = !isSolid (.element m t a ks)) (rule : Rule)
    (found : ({} : RuleTable).find ⟨.element m t a ks, path⟩ o m.blank = .ok rule) :
    ∃ inner own, Treated ts o m t a ks path rule inner own := by
  rcases RuleTable.find_cases {} _ o m.blank rule found with ⟨blank, rfl⟩ | ⟨-, listed, claims⟩ | ⟨-, rfl, unclaimed⟩
  · rw [flagged, Bool.not_eq_true'] at blank
    have none := blank_targets (.element m t a ks) blank
    have below : targetsOf ks = [] := by
      rw [element_solid, Bool.or_eq_false_iff] at blank
      exact blank_targets_of ks blank.2
    refine ⟨_, _, treated_function ts o m t a ks path Rule.blank _ rfl (by decide) rfl (none.trans below.symm)
      fun content _ => ?_⟩
    rw [below]
    trivial
  · rcases List.mem_append.mp listed with builtin | removed
    · exact listed_treated ts o m t a ks path referenced full voids rule (by simpa using builtin) claims
    · obtain ⟨tag, inside, rfl⟩ := List.mem_map.mp removed
      have named : t = tag := List.mem_singleton.mp (claimed_named o m t a ks path _ [tag] rfl claims)
      have unread : isUnread (.element m t a ks) = true := by
        rw [isUnread, Node.tag, named, List.contains_iff_mem.mpr inside, Bool.or_true]
      have other : ("remove-" ++ tag) ≠ "reference-link" ∧ ("remove-" ++ tag) ≠ "image" := by
        have all : ∀ tag ∈ removedTags, ("remove-" ++ tag) ≠ "reference-link" ∧ ("remove-" ++ tag) ≠ "image" := by decide
        exact all tag inside
      exact ⟨[], [], treated_unread ts o m t a ks path _ other rfl unread fun content => ⟨[], fun s => rfl⟩⟩
  · have plain := default_targets o m t a ks path referenced ((RuleTable.first_claim_none_iff _ o _).mp unclaimed)
    refine ⟨_, _, treated_function ts o m t a ks path Rule.default _ rfl (by decide) rfl plain fun content carries => ?_⟩
    split
    · exact carries_apart _ content carries
    · exact carries

end

end

end Downmark.Render
