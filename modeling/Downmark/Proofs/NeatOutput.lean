import Downmark.Proofs.CodeSpans
import Downmark.Proofs.Spelled
import Downmark.Proofs.Steady
import Downmark.Proofs.TidyTree
/-!
Rendering keeps the margins of its output neat. Main statement: whatever an element of a tidy tree writes, it
does not begin with a tab or a carriage return, unless there is something before it on its line.
-/

set_option autoImplicit false

namespace Downmark

namespace Render

-- What the rule of an element can make of its content, the element being a block or not.
inductive Outcome (block : Bool) (content written : Chars) : Prop where
  | nothing (empty : written = [])
  | same (whole : written = content)
  | neat (neat : Neat written)
  | block (isBlock : block = true) (keeps : Neat content → Neat written)

theorem of_function_ok (f : Chars → Site → Options → State → Chars) (content : Chars) (site : Site) (o : Options)
    (s t : State) (written : Chars) (worked : Replacement.ofFunction f content site o s = .ok written t) :
    written = f content site o s := by
  cases worked
  rfl

theorem named_block (site : Site) (o : Options) (rule : Rule) (names : List String)
    (filter : rule.filter = .tags names) (blocks : ∀ name ∈ names, isBlockTag name = true)
    (claims : rule.claims site o = .ok true) : site.node.isBlock = true := by
  rw [Rule.claims, filter] at claims
  have listed : site.tag ∈ names := by simpa using claims
  exact blocks _ listed

theorem list_outcome (content : Chars) (site : Site) (o : Options) (s t : State) (written : Chars)
    (worked : Block.list content site o s = .ok written t) (neat : Neat content) : Neat written := by
  obtain rfl := of_function_ok _ content site o s t written worked
  have under : Neat ('\n' :: content) := ⟨clean_append ['\n'] content (clean_gaps _ (by decide)) neat.clean, neat.begins⟩
  split
  · split
    · exact under
    · exact neat_apart content neat.begins
  · exact neat_apart content neat.begins

theorem item_outcome (content : Chars) (site : Site) (o : Options) (s t : State) (written : Chars)
    (tidy : site.node.mark.Tidy) (worked : Block.listItem content site o s = .ok written t) (neat : Neat content) :
    Neat written := by
  obtain rfl := of_function_ok _ content site o s t written worked
  have marker : MarkerLike (Block.markerOf o site) := by
    unfold Block.markerOf
    cases noted : site.node.mark.marker with
    | none => exact of_item_marker o site
    | some marker => exact tidy.marker marker noted
  have item := item_neat (Block.markerOf o site) content marker neat
  dsimp only
  split
  · exact ⟨⟨edge_append _ _ item.clean.first (edge_stop '\n' _ rfl), edge_newline _ [] edge_nil⟩,
      begins_tail _ _ item.begins (by simp)⟩
  · exact item

theorem delimited_outcome (text content preferred alternate : Chars)
    (inked : ∀ d ∈ [preferred, alternate], Inked d ∧ Inked d.reverse) :
    Outcome false content (Inline.delimited text content preferred alternate) := by
  unfold Inline.delimited Inline.chooseDelimiter
  dsimp only
  split
  · exact .nothing rfl
  · obtain ⟨first, last⟩ := inked (if (!Inline.collides text content preferred) = true then preferred
      else if (!Inline.collides text content alternate) = true then alternate else preferred) (by split_ifs <;> simp)
    exact .neat (neat_between _ _ content first last)

theorem span_outcome (content : Chars) : Outcome false content (Code.span content) := by
  have backticks (n : Nat) (some : n ≠ 0) : Inked (List.replicate n '`') := by
    obtain ⟨j, rfl⟩ := Nat.exists_eq_succ_of_ne_zero some
    exact ⟨'`', _, rfl, ⟨rfl, by decide, by decide⟩⟩
  unfold Code.span
  split
  · exact .nothing rfl
  · have opening := backticks _ (Code.span_fresh (Code.flattenLines content)).1
    have closing : Inked (List.replicate (Code.spanLength (Code.flattenLines content)) '`').reverse := by
      rwa [List.reverse_replicate]
    refine .neat ?_
    dsimp only
    rw [List.append_assoc (List.replicate _ _), List.append_assoc (List.replicate _ _)]
    exact neat_between _ _ _ opening closing

theorem indented_written (content : Chars) (site : Site) (o : Options) (s t : State) (written : Chars)
    (worked : Block.indentedCode content site o s = .ok written t) :
    ∃ code, written = Block.apart (Code.indented code) ∧ t = s := by
  cases text : Code.blockText site.node with
  | ok code =>
      simp only [Block.indentedCode, text] at worked
      cases worked
      exact ⟨code, rfl, rfl⟩
  | error failure =>
      simp only [Block.indentedCode, text] at worked
      cases worked

theorem fenced_written (content : Chars) (site : Site) (o : Options) (s t : State) (written : Chars)
    (worked : Block.fencedCode content site o s = .ok written t) :
    ∃ info code, written = Block.apart (Code.fenced o.fence.char info code) ∧ t = s ∧
      Code.language site.node = .ok info ∧ Code.blockText site.node = .ok code := by
  cases text : Code.blockText site.node with
  | ok code =>
      cases language : Code.language site.node with
      | ok info =>
          simp only [Block.fencedCode, text, language] at worked
          cases worked
          exact ⟨info, code, rfl, rfl, rfl, rfl⟩
      | error failure =>
          simp only [Block.fencedCode, text, language] at worked
          cases worked
  | error failure =>
      simp only [Block.fencedCode, text] at worked
      cases worked

theorem code_outcome (content : Chars) (site : Site) (o : Options) (s t : State) (written : Chars)
    (worked : Block.indentedCode content site o s = .ok written t) : Neat written := by
  obtain ⟨code, rfl, -⟩ := indented_written content site o s t written worked
  exact neat_apart _ (indented_begins code)

theorem fenced_outcome (content : Chars) (site : Site) (o : Options) (s t : State) (written : Chars)
    (worked : Block.fencedCode content site o s = .ok written t) : Neat written := by
  have ink : Ink o.fence.char := by cases o.fence <;> exact ⟨rfl, by decide, by decide⟩
  obtain ⟨info, code, rfl, -⟩ := fenced_written content site o s t written worked
  exact neat_apart _ (fenced_begins _ info code ink)

theorem image_outcome (content : Chars) (site : Site) (o : Options) (inlined : o.linkStyle = .inlined) (s t : State)
    (written : Chars) (worked : Link.image content site o s = .ok written t) : Outcome false content written := by
  have inPlace : ¬ o.linkStyle = .referenced := by simp [inlined]
  unfold Link.image at worked
  by_cases empty : (site.node.attr "src").isEmpty
  · simp only [empty, if_true] at worked
    cases worked
    exact .nothing rfl
  · simp only [empty, inPlace, if_false] at worked
    cases worked
    have close : Inked [')'].reverse := ⟨')', [], rfl, ⟨rfl, by decide, by decide⟩⟩
    have neat := neat_between ['!'] [')'] ('[' :: Link.imageText site.node ++ ']' :: '(' ::
      Link.destination (site.node.attr "src") ++ Reference.titleSuffix (Link.title? site.node))
      ⟨'!', [], rfl, ⟨rfl, by decide, by decide⟩⟩ close
    exact .neat (by simpa [Link.target] using neat)

theorem outcome_block (block : Bool) (content written : Chars) (outcome : Outcome false content written) :
    Outcome block content written := by
  cases outcome with
  | nothing empty => exact .nothing empty
  | same whole => exact .same whole
  | neat neat => exact .neat neat
  | block isBlock => cases isBlock

theorem named_pre (n : Marked) (named : n.isNamed "pre" = true) : n.isBlock = true := by
  cases n with
  | element m t a ks =>
      obtain rfl : t = "pre" := by simpa [Node.isNamed] using named
      rfl
  | text | comment | document => cases named

theorem em_inked (delimiter : EmDelimiter) : Inked delimiter.text ∧ Inked delimiter.text.reverse := by
  cases delimiter <;> exact ⟨⟨_, _, rfl, ⟨rfl, by decide, by decide⟩⟩, ⟨_, _, rfl, ⟨rfl, by decide, by decide⟩⟩⟩

theorem strong_inked (delimiter : StrongDelimiter) : Inked delimiter.text ∧ Inked delimiter.text.reverse := by
  cases delimiter <;> exact ⟨⟨_, _, rfl, ⟨rfl, by decide, by decide⟩⟩, ⟨_, _, rfl, ⟨rfl, by decide, by decide⟩⟩⟩

theorem listed_outcome (site : Site) (o : Options) (inlined : o.linkStyle = .inlined) (tidy : site.node.mark.Tidy)
    (content written : Chars) (s t : State) : ∀ rule ∈ CommonMark.rules, rule.claims site o = .ok true →
      rule.replacement content site o s = .ok written t → Outcome site.node.isBlock content written := by
  simp only [CommonMark.rules, List.forall_mem_cons]
  refine ⟨?paragraph, ?lineBreak, ?heading, ?quote, ?list, ?item, ?indented, ?fenced, ?preformatted, ?rule, ?inline,
    ?reference, ?emphasis, ?strong, ?code, ?image, by simp⟩
  case paragraph =>
    intro claims worked
    obtain rfl := of_function_ok _ content site o s t written worked
    exact .block (named_block site o _ ["p"] rfl (by decide) claims) fun neat => neat_apart content neat.begins
  case lineBreak =>
    intro _ worked
    obtain rfl := of_function_ok _ content site o s t written worked
    exact .neat (neat_without _ (by cases o.lineBreak <;> decide) (by cases o.lineBreak <;> decide))
  case heading =>
    intro _ worked
    obtain rfl := of_function_ok _ content site o s t written worked
    refine .neat (neat_apart _ (heading_begins _ _ content ?_))
    unfold Block.headingLevel
    split <;> decide
  case quote =>
    intro _ worked
    obtain rfl := of_function_ok _ content site o s t written worked
    exact .neat (neat_apart _ (quote_begins content))
  case list =>
    intro claims worked
    exact .block (named_block site o _ ["ul", "ol"] rfl (by decide) claims)
      (list_outcome content site o s t written worked)
  case item =>
    intro claims worked
    exact .block (named_block site o _ ["li"] rfl (by decide) claims)
      (item_outcome content site o s t written tidy worked)
  case indented =>
    intro _ worked
    exact .neat (code_outcome content site o s t written worked)
  case fenced =>
    intro _ worked
    exact .neat (fenced_outcome content site o s t written worked)
  case preformatted =>
    intro claims worked
    obtain rfl := of_function_ok _ content site o s t written worked
    have named : site.node.isNamed "pre" = true := by
      have both : CommonMark.isPreformatted site = true := by
        simpa [Rule.claims, Filter.holds] using claims
      exact ((Bool.and_eq_true _ _).mp both).1
    exact .block (named_pre site.node named) fun neat => neat_apart _ (begins_trim content neat.begins)
  case rule =>
    intro _ worked
    obtain rfl := of_function_ok _ content site o s t written worked
    exact .neat (neat_without _ (by cases o.thematicBreak <;> decide) (by cases o.thematicBreak <;> decide))
  case inline =>
    intro _ worked
    obtain rfl := of_function_ok _ content site o s t written worked
    have close : Inked [')'].reverse := ⟨')', [], rfl, ⟨rfl, by decide, by decide⟩⟩
    have neat := neat_between ['['] [')'] (content ++ ']' :: '(' :: Link.destination (site.node.attr "href") ++
      Reference.titleSuffix (Link.title? site.node)) ⟨'[', [], rfl, ⟨rfl, by decide, by decide⟩⟩ close
    exact .neat (by simpa [Link.target] using neat)
  case reference =>
    intro claims
    simp [Rule.claims, Filter.holds, inlined] at claims
  case emphasis =>
    intro _ worked
    obtain rfl := of_function_ok _ content site o s t written worked
    exact outcome_block _ _ _ (delimited_outcome _ _ _ _ (by simp [em_inked]))
  case strong =>
    intro _ worked
    obtain rfl := of_function_ok _ content site o s t written worked
    exact outcome_block _ _ _ (delimited_outcome _ _ _ _ (by simp [strong_inked]))
  case code =>
    intro _ worked
    obtain rfl := of_function_ok _ content site o s t written worked
    exact outcome_block _ _ _ (span_outcome content)
  case image =>
    intro _ worked
    exact outcome_block _ _ _ (image_outcome content site o inlined s t written worked)

theorem rule_outcome (site : Site) (o : Options) (inlined : o.linkStyle = .inlined) (tidy : site.node.mark.Tidy)
    (blank : Bool) (rule : Rule) (found : ({} : RuleTable).find site o blank = .ok rule) (content written : Chars)
    (s t : State) (worked : rule.replacement content site o s = .ok written t) :
    Outcome site.node.isBlock content written := by
  rcases RuleTable.find_cases {} site o blank rule found with ⟨-, rfl⟩ | ⟨-, listed, claims⟩ | ⟨-, rfl, -⟩
  · change Rule.blankReplacement content site o s = .ok written t at worked
    obtain rfl := of_function_ok _ content site o s t written worked
    split
    · exact .neat (neat_without _ (by decide) (by decide))
    · exact .nothing rfl
  · rcases List.mem_append.mp listed with builtin | removed
    · exact listed_outcome site o inlined tidy content written s t rule (by simpa using builtin) claims worked
    · obtain ⟨tag, -, rfl⟩ := List.mem_map.mp removed
      change Rule.removeReplacement content site o s = .ok written t at worked
      exact .nothing (of_function_ok _ content site o s t written worked)
  · change Rule.defaultReplacement content site o s = .ok written t at worked
    obtain rfl := of_function_ok _ content site o s t written worked
    split
    · rename_i isBlock
      exact .block isBlock fun neat => neat_apart content neat.begins
    · exact .same rfl

theorem flanking_neat (content : Chars) (neat : Neat content) :
    Neat (Whitespace.flanking content).1 ∧ Clean (Whitespace.flanking content).2.1 ∧
      Neat (Whitespace.flanking content).2.2 := by
  obtain ⟨leading, trailing⟩ := flanking_gaps content
  have rest : Edge (Text.trimStart Text.isGap content).reverse := by
    obtain ⟨run, whole, -⟩ := Text.trim_start_run Text.isGap content
    exact edge_after run _ (whole ▸ neat.clean.last)
  have stopped (s : Chars) (stop : s.head?.any Text.isGap = false) : Edge s := by
    rw [Edge, (Text.take_empty Text.isGap s).mpr stop]
    exact List.not_mem_nil
  refine ⟨gaps_neat _ leading neat.clean.first, ⟨stopped _ ?_, stopped _ ?_⟩, gaps_neat _ trailing ?_⟩
  · change (Text.trim Text.isGap content).head?.any Text.isGap = false
    rw [← Text.trim_both]
    exact Text.drop_stop _ _
  · rw [List.head?_reverse]
    exact Text.trim_end_stop _ _
  · exact fun member => rest (List.mem_reverse.mp member)

theorem newlines_gapless (s : Chars) (newlines : Text.trimEnd Text.isNewline s = []) : endsInGap s = false := by
  unfold endsInGap
  split
  · rename_i c last
    have newline := Text.trim_end_empty _ _ newlines c (List.mem_of_getLast? last)
    obtain rfl : c = '\n' := by simpa [Text.isNewline] using newline
    rfl
  · rfl

theorem framed_clean (preceding leading inner trailing : Chars) (leads : Clean leading) (own : Clean inner)
    (trails : Clean trailing) :
    Clean ((if endsInGap preceding = true then [] else leading) ++ inner ++ trailing) := by
  refine clean_append _ _ (clean_append _ _ ?_ own) trails
  split
  · exact clean_nil
  · exact leads

theorem framed_neat (preceding leading inner trailing : Chars) (leads : Neat leading) (own : Neat inner)
    (trails : Neat trailing) :
    Clean ((if endsInGap preceding = true then [] else leading) ++ inner ++ trailing) ∧
      (Text.trimEnd Text.isNewline preceding = [] →
        Begins ((if endsInGap preceding = true then [] else leading) ++ inner ++ trailing)) := by
  refine ⟨framed_clean _ _ _ _ leads.clean own.clean trails.clean, fun newlines => ?_⟩
  rw [newlines_gapless preceding newlines, if_neg Bool.false_ne_true]
  exact begins_both _ _ (begins_both _ _ leads.begins own.begins) trails.begins

-- A gap is dropped only where another one stands before it, and then nothing of the element comes first.
theorem replace_neat (rule : Rule) (site : Site) (o : Options) (flowing : o.preformattedCode = false)
    (content preceding written : Chars) (s t : State) (neat : Neat content)
    (outcome : ∀ content written s t, rule.replacement content site o s = .ok written t →
      Outcome site.node.isBlock content written)
    (worked : replace rule site o content preceding s = .ok written t) :
    Clean written ∧ (Text.trimEnd Text.isNewline preceding = [] → Begins written) := by
  have cases_ := replace_cases rule site o content preceding written s t worked
  cases block : site.node.isBlock with
  | true =>
      rw [block, Bool.true_or, if_pos rfl] at cases_
      cases outcome content written s t cases_ with
      | nothing empty => exact empty.symm ▸ ⟨clean_nil, fun _ => begins_nil⟩
      | same whole => exact whole.symm ▸ ⟨neat.clean, fun _ => neat.begins⟩
      | neat neat => exact ⟨neat.clean, fun _ => neat.begins⟩
      | block _ keeps => exact ⟨(keeps neat).clean, fun _ => (keeps neat).begins⟩
  | false =>
      rw [block, flowing, Bool.false_and, Bool.or_false, if_neg Bool.false_ne_true] at cases_
      obtain ⟨leads, clean, trails⟩ := flanking_neat content neat
      have whole := flanking_whole content
      generalize Whitespace.flanking content = parts at cases_ leads clean trails whole
      obtain ⟨leading, core, trailing⟩ := parts
      obtain ⟨inner, last, replaced, rfl, kept⟩ := cases_
      have ends : Neat last := by
        rcases kept with rfl | rfl
        · exact neat_nil
        · exact trails
      cases outcome core inner _ _ replaced with
      | nothing empty => exact framed_neat _ _ _ _ leads (empty.symm ▸ neat_nil) ends
      | neat own => exact framed_neat _ _ _ _ leads own ends
      | block isBlock => simp [block] at isBlock
      | same same =>
          subst same
          refine ⟨framed_clean _ _ _ _ leads.clean clean ends.clean, fun newlines => ?_⟩
          rw [newlines_gapless preceding newlines, if_neg Bool.false_ne_true]
          rcases kept with rfl | rfl
          · rw [List.append_nil]
            exact begins_before _ trailing (whole.symm ▸ neat.begins)
          · exact whole.symm ▸ neat.begins

theorem text_output_mem (s : State) (o : Options) (opened : List Open) (m : Mark) (data : Chars) (c : Char)
    (member : c ∈ textOutput s o opened m data) : c ∈ s.textOf o m data ∨ c = '\\' := by
  unfold textOutput at member
  dsimp only at member
  split at member
  · exact .inl member
  · split at member
    · exact Escape.spelled_mem _ true _ _ (Escape.preformatted_spelled _ _) c member
    · exact Escape.spelled_mem _ true _ _ (Escape.markdown_spelled _ _) c member

theorem text_neat (s : State) (o : Options) (flowing : o.preformattedCode = false) (opened : List Open) (m : Mark)
    (data : Chars) (tidy : m.Tidy) : Neat (textOutput s o opened m data) := by
  have spaced : Spaced (s.textOf o m data) := by
    unfold State.textOf
    split
    · rename_i shown noted
      exact tidy.shown shown noted
    · rw [flowing, Bool.false_and, if_neg (by simp)]
      exact Whitespace.squeeze_spaced false data
  refine neat_free _ fun c member => ?_
  rcases text_output_mem s o opened m data c member with inside | rfl
  · exact spaced_free _ spaced c inside
  · exact ⟨by decide, by decide⟩

theorem element_neat (o : Options) (inlined : o.linkStyle = .inlined) (flowing : o.preformattedCode = false)
    (outer : List Open) (isBlock : Bool) (path : List Step) (output : Chars) (m : Mark) (t : String) (a : Attrs)
    (ks : List Marked) (tidy : m.Tidy)
    (below : ∀ outer isBlock head content s u,
      nodes {} o outer isBlock head path [] [] ks s = .ok content u → Neat content)
    (written : Chars) (s u : State) (worked : elementText {} o outer isBlock path output m t a ks s = .ok written u) :
    Clean written ∧ (Text.trimEnd Text.isNewline output = [] → Begins written) := by
  obtain ⟨rule, content, s₁, s₂, s₃, found, read, replaced⟩ :=
    element_ok {} o outer isBlock path output m t a ks written s u worked
  have neat : Neat content := by
    unfold contentText at read
    split at read
    · exact below _ _ _ content _ _ read
    · cases read
      exact neat_nil
  exact replace_neat rule _ o flowing content output written s₂ s₃ neat
    (fun content written s u => rule_outcome ⟨.element m t a ks, path⟩ o inlined tidy m.blank rule found
      content written s u) replaced

mutual

theorem node_neat (o : Options) (inlined : o.linkStyle = .inlined) (flowing : o.preformattedCode = false)
    (outer : List Open) (isBlock : Bool) (path : List Step) (output : Chars) (n : Marked) (tidy : Tidy n)
    (neat : Neat output) (out : Chars) (s u : State)
    (worked : node {} o outer isBlock path output n s = .ok out u) : Neat out := by
  cases n with
  | text m data =>
      have text := text_neat s o flowing (⟨output, isBlock⟩ :: outer) m data tidy
      cases worked
      exact join_neat _ _ neat text.clean fun _ => text.begins
  | comment m data | document m ks =>
      cases worked
      exact neat
  | element m t a ks =>
      rw [node_element] at worked
      obtain ⟨written, v, wrote, ended⟩ := (bind_ok_iff _ _ _ _ _).mp worked
      cases ended
      obtain ⟨clean, begins⟩ := element_neat o inlined flowing outer isBlock path output m t a ks tidy.1
        (fun outer isBlock head content s u =>
          nodes_neat o inlined flowing outer isBlock head path [] [] ks tidy.2 neat_nil content s u) written s _ wrote
      exact join_neat _ _ neat clean begins

theorem nodes_neat (o : Options) (inlined : o.linkStyle = .inlined) (flowing : o.preformattedCode = false)
    (outer : List Open) (isBlock : Bool) (head : Head) (path : List Step) (before : List Marked) (output : Chars)
    (ks : List Marked) (tidy : TidyAll ks) (neat : Neat output) (out : Chars) (s u : State)
    (worked : nodes {} o outer isBlock head path before output ks s = .ok out u) : Neat out := by
  cases ks with
  | nil =>
      cases worked
      exact neat
  | cons n rest =>
      rw [nodes] at worked
      obtain ⟨first, v, here, later⟩ := (bind_ok_iff _ _ _ _ _).mp worked
      exact nodes_neat o inlined flowing outer isBlock head path _ first rest tidy.2
        (node_neat o inlined flowing outer isBlock _ output n tidy.1 neat first s v here) out v u later

end

end Render

end Downmark
