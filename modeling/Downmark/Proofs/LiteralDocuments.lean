import Downmark.Proofs.HarmlessTrees
import Downmark.Proofs.RenderedTop
/-!
Documents of paragraphs and preformatted text without markup of their own. Main statement: a line of what they are
converted to opens a block only where it is indented, and a line of some text does so as well, or where white space
that was cut from its ends had kept it from doing so.
-/

set_option autoImplicit false

namespace Downmark

-- Text, comments, paragraphs, preformatted text that is no code, what the default rule leaves as it is, and void
-- elements that leave nothing.
def Textual (o : Options) (site : Site) : Prop :=
  match site.node with
  | .text _ _ => True
  | .comment _ _ => True
  | .document _ _ => False
  | .element _ t a ks => t = "p" ∨ (t = "pre" ∧ ks.any (Node.isNamed "code") = false) ∨
      (isBlockTag t = false ∧ isVoidTag t = false ∧ ({} : RuleTable).find site o false = .ok Rule.default) ∨
      (Silent t a ∧ ks = [])

theorem textual_bodiless (o : Options) (site : Site) (textual : Textual o site) : site.node.isNamed "body" = false := by
  obtain ⟨n, path⟩ := site
  cases n with
  | text | comment | document => rfl
  | element m t a ks =>
      have other : t ≠ "body" := by
        rintro rfl
        rcases textual with paragraph | ⟨preformatted, -⟩ | ⟨inline, -⟩ | ⟨silent, -⟩
        · exact absurd paragraph (by decide)
        · exact absurd preformatted (by decide)
        · exact absurd inline (by decide)
        · exact absurd silent.inline (by decide)
      simpa [Node.isNamed] using other

namespace Node

variable {μ ν : Type}

theorem any_named_marks (f : μ → ν) (name : String) (ks : List (Node μ)) :
    (mapAllMarks f ks).any (isNamed name) = ks.any (isNamed name) := by
  rw [map_all_marks_map, List.any_map]
  exact congrArg (ks.any ·) (funext fun n => map_marks_named f name n)

mutual

theorem bland_marks (f : μ → ν) (n : Node μ) : Bland (n.mapMarks f) ↔ Bland n := by
  cases n with
  | text | comment | document => exact Iff.rfl
  | element m t a ks =>
      have empty : mapAllMarks f ks = [] ↔ ks = [] := by
        rw [map_all_marks_map, List.map_eq_nil_iff]
      rw [mapMarks, Bland, Bland, any_named_marks, empty, bland_all_marks f ks]

theorem bland_all_marks (f : μ → ν) (ks : List (Node μ)) : BlandAll (mapAllMarks f ks) ↔ BlandAll ks := by
  cases ks with
  | nil => exact Iff.rfl
  | cons n rest => rw [mapAllMarks, BlandAll, BlandAll, bland_marks f n, bland_all_marks f rest]

end

end Node

mutual

theorem textual_bland (o : Options) (path : List Step) (n : Tree)
    (uncoded : Site.parentTag? ⟨n.mapMarks unmarked, path⟩ = some "pre" → n.isNamed "code" = false)
    (textual : ∀ below ∈ Site.within path (n.mapMarks unmarked), Textual o below) : Bland (n.mapMarks unmarked) := by
  cases n with
  | text m data | comment m data => trivial
  | document m ks => exact (textual _ List.mem_cons_self).elim
  | element m t a ks =>
      have below (inside : t = "pre" → ks.any (Node.isNamed "code") = false) :
          BlandAll (Node.mapAllMarks unmarked ks) :=
        textual_bland_all o (.element (unmarked m) t a) path [] ks inside
          (fun below member => textual below (List.mem_cons_of_mem _ member))
      rcases textual _ List.mem_cons_self with rfl | ⟨rfl, plain⟩ | ⟨inline, filled, found⟩ | ⟨silent, none⟩
      · exact ⟨.inl rfl, below fun other => absurd other (by decide)⟩
      · exact ⟨.inr (.inl ⟨rfl, plain⟩), below fun _ => (Node.any_named_marks unmarked "code" ks).symm.trans plain⟩
      · have plain := default_plain o _ t a _ path (fun inside => by simpa [Node.isNamed] using uncoded inside) inline
          filled found
        exact ⟨.inr (.inr (.inl plain)), below fun other => absurd other (plain_other t a plain "pre" (by decide))⟩
      · exact ⟨.inr (.inr (.inr ⟨silent, none⟩)),
          below fun other => absurd other (silent_other t a silent "pre" (by decide))⟩

theorem textual_bland_all (o : Options) (head : Head) (path : List Step) (before : List Marked) (ks : List Tree)
    (uncoded : head.tag = "pre" → ks.any (Node.isNamed "code") = false)
    (textual : ∀ below ∈ Site.among head path before (Node.mapAllMarks unmarked ks), Textual o below) :
    BlandAll (Node.mapAllMarks unmarked ks) := by
  cases ks with
  | nil => trivial
  | cons n rest =>
      rw [Node.mapAllMarks, Site.among] at textual
      have parts (pre : head.tag = "pre") : n.isNamed "code" = false ∧ rest.any (Node.isNamed "code") = false := by
        simpa only [List.any_cons, Bool.or_eq_false_iff] using uncoded pre
      refine ⟨textual_bland o _ n ?_ (fun below member => textual below (List.mem_append_left _ member)),
        textual_bland_all o head path _ rest (fun pre => (parts pre).2)
          (fun below member => textual below (List.mem_append_right _ member))⟩
      intro inside
      by_cases pre : head.tag = "pre"
      · exact (parts pre).1
      · exact absurd inside (path_to_outside head path before _ _ pre)

end

namespace Render

open Escape

-- Trimming cut white space off the line: at its start, or more than gaps at its end.
def Bared (whole line : Chars) : Prop :=
  ∃ before after, before ++ line ++ after ∈ Text.lines whole ∧ (∀ c ∈ before ++ after, Text.isBlank c) ∧
    (before ≠ [] ∨ ∃ c ∈ after, Text.isGap c = false)

theorem snug_not_bared (whole line : Chars) (flush : ∀ l ∈ Text.lines whole, l.head?.any Text.isBlank = false)
    (narrow : ∀ l ∈ Text.lines whole, l.all (fun c => !Text.isBlank c || Text.isGap c)) : ¬ Bared whole line := by
  rintro ⟨before, after, listed, blank, some | ⟨c, member, other⟩⟩
  · cases before with
    | nil => exact some rfl
    | cons c before =>
        have solid : Text.isBlank c = false := flush _ listed
        rw [blank c (by simp)] at solid
        cases solid
  · have gap := List.all_eq_true.mp (narrow _ listed) c (by simp [member])
    rw [other, blank c (by simp [member])] at gap
    cases gap

theorem trimmed_line (whole line : Chars) (member : line ∈ Text.lines (trimmed whole)) :
    ∃ before after, before ++ line ++ after ∈ Text.lines whole ∧ ∀ c ∈ before ++ after, Text.isBlank c := by
  obtain ⟨front, left, starts⟩ := Text.trim_start_run isLineStart whole
  obtain ⟨back, right, blank⟩ := Text.trim_end_run Text.isBlank (Text.trimStart isLineStart whole)
  have parts : whole = front ++ (trimmed whole ++ back) := by
    rw [trimmed, ← right]
    exact left
  obtain ⟨after, longer, cut⟩ := Text.lines_before (trimmed whole) back line member
  obtain ⟨before, listed, gone⟩ := Text.lines_behind front _ _ longer
  rw [← parts, ← List.append_assoc] at listed
  refine ⟨before, after, listed, fun c inside => ?_⟩
  rcases List.mem_append.mp inside with first | last
  · have begins := starts c (gone c first)
    simp only [isLineStart, Bool.or_eq_true, beq_iff_eq] at begins
    rcases begins with (rfl | rfl) | rfl <;> rfl
  · exact blank c (cut c last)

theorem harmless_trimmed (excuse : Prop) (whole line : Chars) (harmless : Harmless excuse whole)
    (member : line ∈ Text.lines (trimmed whole)) (n : Nat) (rest : Chars) (indented : line = Text.spaces n ++ rest)
    (opener : Opener rest) : Bared whole line ∨ 0 < n ∧ excuse := by
  obtain ⟨before, after, listed, blank⟩ := trimmed_line whole line member
  by_cases bared : before ≠ [] ∨ ∃ c ∈ after, Text.isGap c = false
  · exact .inl ⟨before, after, listed, blank, bared⟩
  · obtain ⟨rfl, gaps⟩ : before = [] ∧ ∀ c ∈ after, Text.isGap c := by simpa using bared
    subst indented
    exact .inr (tame_indented n rest after gaps (harmless _ listed) opener)

theorem literal_block_indented_or_bared (o : Options) (ks : List Tree)
    (textual : ∀ site ∈ (Site.ofTree (.document () ks)).all.tail, Textual o site) :
    ∃ whole, root {} o (Site.ofTree (.document () ks)) (logged (.document () ks)) =
        .ok whole (logged (.document () ks)) ∧
      conversion o (.document () ks) = .ok (trimmed whole) ∧
      ∀ line ∈ Text.lines (trimmed whole), ∀ n rest, line = Text.spaces n ++ rest → Opener rest →
        Bared whole line ∨ 0 < n ∧
          ∃ text ∈ readTexts o.preformattedCode false (prepare o (Site.ofTree (.document () ks)).node),
            Indented text := by
  have bodiless : (Site.ofTree (.document () ks)).find? "body" = none := by
    refine List.find?_eq_none.mpr fun site member => ?_
    simp [textual_bodiless o site (textual site member)]
  have bland : BlandAll ks := by
    refine (Node.bland_all_marks unmarked ks).mp (textual_bland_all o (.document {}) [] [] ks ?_ textual)
    exact fun pre => absurd pre (by decide)
  obtain ⟨head, ks', top⟩ := bodiless_top o () ks bodiless
  have bared : Node.bare (head.close ks') = .document () ks := by
    rw [← top.shape, prepare_bare]
    exact Node.bare_marked _ _
  cases head with
  | element m t a => cases bared
  | document m =>
      have same : Node.bareAll ks' = ks := (Node.document.inj bared).2
      have shape : prepare o (Site.ofTree (.document () ks)).node = .document m ks' := top.shape
      have inner : BlandAll ks' := by
        rw [← same] at bland
        exact (Node.bland_all_marks _ ks').mp bland
      have flowing : Flowing o false (logged (.document () ks)) := ⟨rfl, Int.le_refl 0, Bool.and_false _⟩
      rw [shape]
      have excused : ∀ text ∈ readTextsOf o.preformattedCode false ks', Indented text →
          ∃ text ∈ readTexts o.preformattedCode false (.document m ks'), Indented text :=
        fun text member indented => ⟨text, member, indented⟩
      obtain ⟨whole, rendered, harmless⟩ := nodes_harmless o false _ flowing [] true (.document m) (by simp [Head.tag])
        [] (by simp) [] [] ks' inner excused harmless_nil
      have worked : root {} o (Site.ofTree (.document () ks)) (logged (.document () ks)) =
          .ok whole (logged (.document () ks)) := by
        rw [top.rendered]
        exact rendered
      exact ⟨whole, worked, conversion_ok o _ _ worked, fun line member n rest => harmless_trimmed _ whole line harmless
        member n rest⟩

def splitNumber : List Tree :=
  [.element () "p" [] [.text () ['1'], .element () "span" [] [.text () ['.']], .text () [' ', '-', ' ', 'b']]]

theorem split_number_textual : ∀ site ∈ (Site.ofTree (.document () splitNumber)).all.tail, Textual {} site := by
  simp only [splitNumber, Site.ofTree, Node.mapMarks, Node.mapAllMarks, Site.all, Site.within, Site.among,
    List.tail_cons, List.cons_append, List.nil_append, List.forall_mem_cons]
  exact ⟨.inl rfl, trivial, .inr (.inr (.inl ⟨by decide, by decide, rfl⟩)), trivial, trivial, by simp⟩

theorem split_number_literal :
    conversion {} (.document () splitNumber) = .ok "1\\. - b".toList ∧
      ∀ line ∈ Text.lines "1\\. - b".toList, ∀ n rest, line = Text.spaces n ++ rest → ¬ Opener rest := by
  obtain ⟨whole, worked, converted, opened⟩ := literal_block_indented_or_bared {} splitNumber split_number_textual
  have evaluated : root {} {} (Site.ofTree (.document () splitNumber)) (logged (.document () splitNumber)) =
      .ok "\n\n1\\. - b\n\n".toList _ := rfl
  obtain ⟨rfl, -⟩ := EStateM.Result.ok.inj (worked.symm.trans evaluated)
  have flush : ∀ line ∈ Text.lines "1\\. - b".toList, line.head? ≠ some ' ' := by decide
  refine ⟨converted, fun line member n rest indented opener => ?_⟩
  rcases opened line member n rest indented opener with bared | ⟨some, -⟩
  · exact snug_not_bared _ line (by decide) (by decide) bared
  · obtain ⟨k, rfl⟩ := Nat.exists_eq_add_one_of_ne_zero some.ne'
    exact flush line member (by rw [indented]; rfl)

def indentedDash : List Tree := [.element () "p" [] [.element () "wbr" [] [], .text () [' ', '-', ' ', 'a']]]

theorem indented_dash_textual :
    ∀ site ∈ (Site.ofTree (.document () indentedDash)).all.tail, Textual {} site := by
  simp only [indentedDash, Site.ofTree, Node.mapMarks, Node.mapAllMarks, Site.all, Site.within, Site.among,
    List.tail_cons, List.cons_append, List.nil_append, List.forall_mem_cons]
  exact ⟨.inl rfl, .inr (.inr (.inr ⟨⟨by decide, by decide, by decide, by decide⟩, rfl⟩)), trivial, by simp⟩

theorem indented_dash_opens : ¬ ∀ (o : Options) (ks : List Tree),
    (∀ site ∈ (Site.ofTree (.document () ks)).all.tail, Textual o site) →
    ∃ out, conversion o (.document () ks) = .ok out ∧
      ∀ line ∈ Text.lines out, ∀ n rest, n ≤ 3 → line = Text.spaces n ++ rest → ¬ Opener rest := by
  intro claim
  obtain ⟨out, converted, closed⟩ := claim {} indentedDash indented_dash_textual
  have evaluated : conversion {} (.document () indentedDash) = .ok [' ', '-', ' ', 'a'] := rfl
  obtain rfl := Except.ok.inj (converted.symm.trans evaluated)
  have bullet : Opener ['-', ' ', 'a'] := .marked ['-'] [' ', 'a'] (.bullet '-' (.inl rfl)) (.inl rfl)
  exact closed _ (by decide) 1 ['-', ' ', 'a'] (by decide) rfl bullet

end Render

end Downmark
