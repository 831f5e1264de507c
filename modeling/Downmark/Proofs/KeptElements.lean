import Downmark.Proofs.BuiltElements
import Downmark.Proofs.RawText
import Downmark.Proofs.TokenSteps
/-!
Elements that are kept as HTML and read again. Text is always written with references, but the content of a script or a
style sheet is read as it is. Main statement: an element is read back just if each script and style sheet in it has no
content, or text without a bracket and an ampersand, nothing is in an element that is closed at once, and each name of
an element starts with a letter of ASCII.
-/

set_option autoImplicit false

namespace Downmark.Html

open Node

mutual

/-- A tree of elements and texts with names and attributes that tags can have. No texts are side by side, and none is
only white space. -/
def Kept : Tree → Prop
  | .text _ data => data.any (fun c => !Builder.isPlainSpace c) = true
  | .comment _ _ => False
  | .element _ t a ks => IsTagName t ∧ (∀ x ∈ a, IsAttrName x.1) ∧ IsAttrs t a ∧ Apart ks ∧ KeptAll ks
  | .document _ _ => False

def KeptAll : List Tree → Prop
  | [] => True
  | n :: rest => Kept n ∧ KeptAll rest

end

/-- Whether a character of text is written with a reference. -/
def isReferred (c : Char) : Bool := c == '&' || c == '<' || c == '>'

/-- Whether the content of a script or a style sheet is written as it is read: nothing, or text without references. -/
def isVerbatim : List Tree → Bool
  | [] => true
  | [.text _ data] => data.all fun c => !isReferred c
  | _ => false

mutual

/-- Whether names of elements start with a letter of ASCII, elements that are closed at once have no content, and raw
text is written as it is read. -/
def readsBack : Tree → Bool
  | .text _ _ => true
  | .comment _ _ => true
  | .element _ t _ ks => t.toList.head?.any Text.isAsciiLetter &&
      if voidNames.contains t then ks.isEmpty else if rawNames.contains t then isVerbatim ks else allReadBack ks
  | .document _ _ => true

def allReadBack : List Tree → Bool
  | [] => true
  | n :: rest => readsBack n && allReadBack rest

end

theorem kept_lasts (ks : List Tree) (kept : KeptAll ks) : ∀ n ∈ ks, Lasts n := by
  induction ks with
  | nil => exact fun n member => by cases member
  | cons n rest ih =>
      obtain ⟨here, others⟩ := kept
      refine List.forall_mem_cons.mpr ⟨?_, ih others⟩
      cases n with
      | text m data => exact .text data here
      | element m t a ks => exact .element t a ks
      | comment | document => cases here

theorem raw_filled (t : String) (raw : rawNames.contains t = true) : voidNames.contains t = false := by
  have apart : ∀ t ∈ rawNames, voidNames.contains t = false := by decide
  exact apart t (List.contains_iff_mem.mp raw)

theorem unlisted_unwritten (t : String) (unlisted : voidNames.contains t = false) : isVoidTag t = false := by
  have named : ∀ t ∈ voidTags, voidNames.contains t = true := by decide
  rw [Bool.eq_false_iff]
  intro void
  rw [named t (List.contains_iff_mem.mp void)] at unlisted
  cases unlisted

theorem filled_outer (t : String) (a : Attrs) (ks : List Tree) (filled : isVoidTag t = false) (s : Chars) :
    outerHtml (.element () t a ks) ++ s = Markup.startTag t a ++ (innerHtml ks ++ (Markup.endTag t ++ s)) := by
  rw [outerHtml, filled, if_neg Bool.false_ne_true, List.append_assoc, List.append_assoc]

-- The builder owes end tags only to elements that are written without one.
def OwesVoids (b : Builder) : Prop := ∀ tag ∈ b.owed, isVoidTag tag = true

theorem owes_none (b : Builder) (owes : OwesVoids b) (t : String) (filled : isVoidTag t = false) :
    b.owed.contains t = false := by
  rw [Bool.eq_false_iff]
  intro owed
  rw [owes t (List.contains_iff_mem.mp owed)] at filled
  cases filled

theorem opens_owes (b : Builder) (owes : OwesVoids b) (t : String) (a : Attrs) : OwesVoids (b.opens t a) :=
  fun tag member => owes tag (Builder.finish_text_owed b ▸ member)

theorem raw_ends (t : String) (raw : rawNames.contains t = true) (s : Chars) :
    endsRaw t.toList (Markup.endTag t ++ s) = true := by
  have ends : ∀ t ∈ rawNames, ∀ s, endsRaw t.toList (Markup.endTag t ++ s) = true := by
    intro t member
    simp only [rawNames, List.mem_cons, List.not_mem_nil, or_false] at member
    rcases member with rfl | rfl <;> exact fun s => rfl
  exact ends t (List.contains_iff_mem.mp raw) s

theorem text_char_cases (c : Char) : isReferred c = false ∧ Markup.textChar c = [c] ∨
    isReferred c = true ∧ ∃ more, Markup.textChar c = '&' :: more ∧ more ≠ [] ∧ '<' ∉ more := by
  unfold Markup.textChar
  by_cases ampersand : c = '&'
  · exact .inr ⟨by simp [isReferred, ampersand], "amp;".toList, by simp [ampersand], by decide, by decide⟩
  by_cases opening : c = '<'
  · exact .inr ⟨by simp [isReferred, opening], "lt;".toList, by simp [opening], by decide, by decide⟩
  by_cases closing : c = '>'
  · exact .inr ⟨by simp [isReferred, closing], "gt;".toList, by simp [closing], by decide, by decide⟩
  · exact .inl ⟨by simp [isReferred, ampersand, opening, closing], by simp [ampersand, opening, closing]⟩

theorem text_unopened (data : Chars) : '<' ∉ Markup.text data := by
  intro member
  obtain ⟨c, -, inside⟩ := List.mem_flatMap.mp member
  rcases text_char_cases c with ⟨plain, same⟩ | ⟨-, more, same, -, none⟩
  · rw [same, List.mem_singleton] at inside
    subst inside
    cases plain
  · rw [same, List.mem_cons] at inside
    exact inside.elim (by decide) none

theorem text_length (data : Chars) : data.length ≤ (Markup.text data).length := by
  induction data with
  | nil => exact Nat.le_refl 0
  | cons c rest ih =>
      have whole : Markup.text (c :: rest) = Markup.textChar c ++ Markup.text rest := List.flatMap_cons
      rw [whole, List.length_append, List.length_cons]
      rcases text_char_cases c with ⟨-, same⟩ | ⟨-, more, same, -⟩ <;> rw [same, List.length_cons] <;> omega

theorem text_same_iff (data : Chars) : Markup.text data = data ↔ (data.all fun c => !isReferred c) = true := by
  induction data with
  | nil => exact ⟨fun _ => rfl, fun _ => rfl⟩
  | cons c rest ih =>
      have whole : Markup.text (c :: rest) = Markup.textChar c ++ Markup.text rest := List.flatMap_cons
      rw [whole, List.all_cons]
      rcases text_char_cases c with ⟨plain, same⟩ | ⟨referred, more, same, some, -⟩
      · rw [same, List.singleton_append, List.cons.injEq, ih, plain]
        simp
      · rw [referred, Bool.not_true, Bool.false_and]
        refine ⟨fun equal => ?_, fun none => by cases none⟩
        have long := congrArg List.length equal
        have enough := text_length rest
        have more := List.length_pos_iff.mpr some
        rw [same] at long
        simp only [List.length_append, List.length_cons] at long
        omega

theorem text_inked (data : Chars) (inked : data.any (fun c => !Builder.isPlainSpace c) = true) :
    (Markup.text data).any (fun c => !Builder.isPlainSpace c) = true := by
  obtain ⟨c, member, ink⟩ := List.any_eq_true.mp inked
  rcases text_char_cases c with ⟨-, same⟩ | ⟨-, more, same, -⟩
  · exact List.any_eq_true.mpr ⟨c, List.mem_flatMap.mpr ⟨c, member, by rw [same]; exact List.mem_singleton_self c⟩, ink⟩
  · exact List.any_eq_true.mpr ⟨'&', List.mem_flatMap.mpr ⟨c, member, by rw [same]; exact List.mem_cons_self⟩, rfl⟩

theorem single_text (data : Chars) : innerHtml [Node.text () data] = Markup.text data := List.append_nil _

theorem raw_kids_text (b : Builder) (data : Chars) (inked : data.any (fun c => !Builder.isPlainSpace c) = true) :
    b.rawKids data = [.text () data] := by
  cases data with
  | nil => cases inked
  | cons c more => exact congrArg (fun data => [Node.text () data]) (b.settled_inked _ inked)

theorem verbatim_kept (ks : List Tree) (kept : KeptAll ks) (verbatim : isVerbatim ks = true) (b : Builder) :
    '<' ∉ innerHtml ks ∧ b.rawKids (innerHtml ks) = ks := by
  match ks with
  | [] => exact ⟨List.not_mem_nil, rfl⟩
  | [.text () data] =>
      have inked : data.any (fun c => !Builder.isPlainSpace c) = true := kept.1
      rw [single_text]
      refine ⟨text_unopened data, ?_⟩
      rw [(text_same_iff data).mpr verbatim, raw_kids_text b data inked]

-- Raw text that is not written as it is read becomes something else.
theorem verbatim_only (ks : List Tree) (kept : KeptAll ks) (b : Builder) (n : Nat)
    (whole : '<' ∉ innerHtml ks → n = (innerHtml ks).length) (same : b.rawKids ((innerHtml ks).take n) = ks) :
    isVerbatim ks = true := by
  have shape : ks = [] ∨ ∃ data, ks = [.text () data] := by
    rw [← same, Builder.rawKids]
    split
    · exact .inl rfl
    · exact .inr ⟨_, rfl⟩
  rcases shape with rfl | ⟨data, rfl⟩
  · rfl
  · have inked : data.any (fun c => !Builder.isPlainSpace c) = true := kept.1
    rw [single_text] at whole same
    rw [whole (text_unopened data), List.take_length, raw_kids_text b _ (text_inked data inked)] at same
    exact (text_same_iff data).mp (Node.text.inj (List.cons.inj same).1).2

/-! Single elements -/

/-- Whether a document cannot have some children, whatever is left to read. -/
def Strays (r : Reader) (whole : List Tree) : Prop := ∀ fuel, r.rest.length < fuel → ¬ (r.run fuel).Grows whole

theorem strays_made (r : Reader) (whole : List Tree) (strays : ¬ r.made.Grows whole) : Strays r whole :=
  fun _ _ grows => strays (Builder.grows_tokens r.made whole _ grows)

theorem strays_ahead (here there : Reader) (whole : List Tree) (leads : Leads here there)
    (strays : Strays there whole) : Strays here whole := by
  intro fuel enough
  obtain ⟨left, more, same⟩ := leads fuel enough
  rw [same]
  exact strays left more

theorem outer_starts (t : String) (a : Attrs) (ks : List Tree) (s : Chars) :
    ∃ more, outerHtml (.element () t a ks) ++ s = Markup.startTag t a ++ more := by
  rw [outerHtml]
  split
  · exact ⟨s, rfl⟩
  · exact ⟨_, by rw [List.append_assoc, List.append_assoc]⟩

theorem unnamed_misread (t : String) (a : Attrs) (named : IsTagName t)
    (letter : t.toList.head?.any Text.isAsciiLetter = false) (b : Builder) (ks rest whole : List Tree)
    (awaits : b.Awaits (.element () t a ks :: rest) whole) (s : Chars) :
    Strays ⟨none, outerHtml (.element () t a ks) ++ s, b⟩ whole := by
  obtain ⟨more, starts⟩ := outer_starts t a ks s
  obtain ⟨c, name, spelled⟩ := List.exists_cons_of_ne_nil named.some
  have word : Text.isWord c = true := named.word c (spelled ▸ List.mem_cons_self)
  have bracket : Markup.startTag t a ++ more = '<' :: c :: (name ++ a.flatMap Markup.written ++ ['>'] ++ more) := by
    simp [Markup.startTag, spelled]
  rw [spelled] at letter
  rw [starts, bracket]
  exact strays_ahead _ _ whole (bracket_leads b c _ letter word)
    (strays_made _ whole (Builder.awaits_text b whole _ rfl rest awaits))

section

variable (t : String) (a : Attrs) (named : IsTagName t) (names : ∀ x ∈ a, IsAttrName x.1) (sound : IsAttrs t a)
variable (letter : t.toList.head?.any Text.isAsciiLetter = true) (b : Builder) (owes : OwesVoids b)

include named names sound letter

theorem void_start_read (void : voidNames.contains t = true) (s : Chars) : Leads ⟨none, Markup.startTag t a ++ s, b⟩
    ⟨none, s, { b.put (.element () t a []) with owed := t :: b.owed }⟩ := by
  have raw : rawNames.contains t = false := by
    rw [Bool.eq_false_iff]
    intro raw
    rw [raw_filled t raw] at void
    cases void
  have start := start_tag_leads b t a named names letter s
  rwa [raw, if_neg Bool.false_ne_true, Builder.void_added b t a sound void] at start

theorem filled_start_read (filled : voidNames.contains t = false) (ks : List Tree) (s : Chars) :
    Leads ⟨none, outerHtml (.element () t a ks) ++ s, b⟩
      ⟨if rawNames.contains t then some t else none, innerHtml ks ++ (Markup.endTag t ++ s), b.opens t a⟩ := by
  have start := start_tag_leads b t a named names letter (innerHtml ks ++ (Markup.endTag t ++ s))
  rwa [Builder.start_tag_opens b t a sound filled, ← filled_outer t a ks (unlisted_unwritten t filled) s] at start

theorem content_start_read (filled : voidNames.contains t = false) (plain : rawNames.contains t = false)
    (ks : List Tree) (s : Chars) : Leads ⟨none, outerHtml (.element () t a ks) ++ s, b⟩
      ⟨none, innerHtml ks ++ (Markup.endTag t ++ s), b.opens t a⟩ := by
  have start := filled_start_read t a named names sound letter b filled ks s
  rwa [plain, if_neg Bool.false_ne_true] at start

theorem void_misread (void : voidNames.contains t = true) (ks : List Tree) (some : ks ≠ []) (rest whole : List Tree)
    (awaits : b.Awaits (.element () t a ks :: rest) whole) (s : Chars) :
    Strays ⟨none, outerHtml (.element () t a ks) ++ s, b⟩ whole := by
  obtain ⟨more, starts⟩ := outer_starts t a ks s
  rw [starts]
  refine strays_ahead _ _ whole (void_start_read t a named names sound letter b void more) ?_
  refine strays_made _ whole fun grows => ?_
  have same := Builder.awaits_added b whole _ (.element () t a []) rest awaits grows
  exact some (Node.element.inj same).2.2.2.symm

include owes

theorem void_read (void : voidNames.contains t = true) (s : Chars) : ∃ owed, (∀ tag ∈ owed, isVoidTag tag = true) ∧
    Leads ⟨none, outerHtml (.element () t a []) ++ s, b⟩ ⟨none, s, { b.put (.element () t a []) with owed }⟩ := by
  have start := void_start_read t a named names sound letter b void
  cases written : isVoidTag t with
  | true =>
      refine ⟨t :: b.owed, List.forall_mem_cons.mpr ⟨written, owes⟩, ?_⟩
      rw [outerHtml, written, if_pos rfl]
      exact start s
  | false =>
      refine ⟨b.owed, owes, ?_⟩
      have paid : Builder.endTag { b.put (.element () t a []) with owed := t :: b.owed } t =
          { b.put (.element () t a []) with owed := b.owed } := by
        rw [Builder.endTag, if_pos (by simp)]
        simp
      rw [filled_outer t a [] written, ← paid]
      exact leads_trans _ _ _ (start _) (end_tag_leads _ t named letter s)

-- Raw text that has an end tag in it ends there, and what comes next is not what was written.
theorem raw_read (raw : rawNames.contains t = true) (ks : List Tree) (s : Chars) : ∃ n rest,
    ('<' ∉ innerHtml ks → n = (innerHtml ks).length ∧ rest = s) ∧
    Leads ⟨none, outerHtml (.element () t a ks) ++ s, b⟩
      ⟨none, rest,
        { b.put (.element () t a ((b.opens t a).rawKids ((innerHtml ks).take n))) with owed := b.owed }⟩ := by
  have filled := raw_filled t raw
  have unowed := owes_none b owes t (unlisted_unwritten t filled)
  have start := filled_start_read t a named names sound letter b filled ks s
  rw [if_pos raw] at start
  have ends := raw_ends t raw s
  by_cases free : '<' ∉ innerHtml ks
  · have found := raw_length_exact t.toList (innerHtml ks) _ free ends
    have back : (innerHtml ks ++ (Markup.endTag t ++ s)).drop (innerHtml ks).length = Markup.endTag t ++ s :=
      List.drop_left
    have read : endTag ((Markup.endTag t ++ s).drop 2) = .token (.endTag t) (Markup.endTag t).length := by
      have inside : (Markup.endTag t ++ s).drop 2 = t.toList ++ '>' :: s := by simp [Markup.endTag]
      rw [inside, end_tag_read t named letter s]
    have some : 0 < (Markup.endTag t).length := Nat.succ_pos _
    have content := raw_leads (b.opens t a) t _ _ _ found some (by rw [back]; exact read)
    rw [back, List.drop_left, List.take_left, Builder.raw_built b t a _ unowed] at content
    refine ⟨_, s, fun _ => ⟨rfl, rfl⟩, ?_⟩
    rw [List.take_length]
    exact leads_trans _ _ _ start content
  · obtain ⟨n, short, found⟩ := raw_length_found t.toList (innerHtml ks) _ ends
    obtain ⟨length, taken, read⟩ := raw_end_read t raw _ (raw_length_ends _ _ n found)
    have content := raw_leads (b.opens t a) t _ n length found taken read
    rw [List.take_append_of_le_length short, Builder.raw_built b t a _ unowed] at content
    exact ⟨n, _, fun none => absurd none free, leads_trans _ _ _ start content⟩

theorem raw_misread (raw : rawNames.contains t = true) (ks : List Tree) (inside : KeptAll ks)
    (wrong : isVerbatim ks = false) (rest whole : List Tree)
    (awaits : b.Awaits (.element () t a ks :: rest) whole) (s : Chars) :
    Strays ⟨none, outerHtml (.element () t a ks) ++ s, b⟩ whole := by
  obtain ⟨n, left, written, read⟩ := raw_read t a named names sound letter b owes raw ks s
  refine strays_ahead _ _ whole read (strays_made _ whole fun grows => ?_)
  have same := Builder.awaits_added b whole _ (.element () t a _) rest awaits grows
  rw [verbatim_only ks inside (b.opens t a) n (fun free => (written free).1) (Node.element.inj same).2.2.2] at wrong
  cases wrong

end

/-! Trees that are read back -/

mutual

theorem node_read_back (n : Tree) (kept : Kept n) (back : readsBack n = true) (b : Builder) (owes : OwesVoids b)
    (s : Chars) : ∃ owed, (∀ tag ∈ owed, isVoidTag tag = true) ∧
      Leads ⟨none, outerHtml n ++ s, b⟩ ⟨none, s, { b.put n with owed }⟩ := by
  cases n with
  | text m data =>
      have some : data ≠ [] := by
        rintro rfl
        cases kept
      exact ⟨b.owed, owes, text_leads b data some s⟩
  | comment m data => cases kept
  | document m ks => cases kept
  | element m t a ks =>
      obtain ⟨named, names, sound, apart, inside⟩ := kept
      rw [readsBack, Bool.and_eq_true] at back
      obtain ⟨letter, back⟩ := back
      cases void : voidNames.contains t with
      | true =>
          rw [void, if_pos rfl, List.isEmpty_iff] at back
          rw [back]
          exact void_read t a named names sound letter b owes void s
      | false =>
          rw [void, if_neg Bool.false_ne_true] at back
          cases raw : rawNames.contains t with
          | true =>
              rw [raw, if_pos rfl] at back
              obtain ⟨free, same⟩ := verbatim_kept ks inside back (b.opens t a)
              obtain ⟨n, rest, written, read⟩ := raw_read t a named names sound letter b owes raw ks s
              obtain ⟨rfl, rfl⟩ := written free
              rw [List.take_length, same] at read
              exact ⟨b.owed, owes, read⟩
          | false =>
              rw [raw, if_neg Bool.false_ne_true] at back
              have start := content_start_read t a named names sound letter b void raw ks s
              have owing := opens_owes b owes t a
              obtain ⟨owed, voids, content⟩ := nodes_read_back ks inside back (b.opens t a) owing (Markup.endTag t ++ s)
              have unowed := owes_none { b with owed } voids t (unlisted_unwritten t void)
              have close := end_tag_leads { (b.opens t a).putAll ks with owed } t named letter s
              rw [Builder.element_built b t a ks (kept_lasts ks inside) apart owed unowed] at close
              exact ⟨owed, voids, leads_trans _ _ _ start (leads_trans _ _ _ content close)⟩

theorem nodes_read_back (ks : List Tree) (kept : KeptAll ks) (back : allReadBack ks = true) (b : Builder)
    (owes : OwesVoids b) (s : Chars) : ∃ owed, (∀ tag ∈ owed, isVoidTag tag = true) ∧
      Leads ⟨none, innerHtml ks ++ s, b⟩ ⟨none, s, { b.putAll ks with owed }⟩ := by
  cases ks with
  | nil => exact ⟨b.owed, owes, leads_refl _⟩
  | cons n rest =>
      rw [allReadBack, Bool.and_eq_true] at back
      obtain ⟨owed, voids, here⟩ := node_read_back n kept.1 back.1 b owes (innerHtml rest ++ s)
      obtain ⟨left, still, others⟩ := nodes_read_back rest kept.2 back.2 { b.put n with owed } voids s
      refine ⟨left, still, ?_⟩
      rw [Builder.put_all_owing] at others
      rw [innerHtml, List.append_assoc]
      exact leads_trans _ _ _ here others

end

theorem apart_ready (b : Builder) (n : Tree) (rest : List Tree) (apart : Apart (n :: rest)) :
    (b.put n).pending = none ∨ ∀ m ∈ rest.head?, m.isElement = true := by
  refine apart.1.imp_left fun element => ?_
  rw [Builder.put_element b n element, Builder.add_pending, Builder.finish_text_pending]

/-! Trees that are not -/

mutual

theorem node_misread (n : Tree) (kept : Kept n) (wrong : readsBack n = false) (b : Builder) (owes : OwesVoids b)
    (rest whole : List Tree) (awaits : b.Awaits (n :: rest) whole) (s : Chars) :
    Strays ⟨none, outerHtml n ++ s, b⟩ whole := by
  cases n with
  | text m data => cases wrong
  | comment m data => cases kept
  | document m ks => cases kept
  | element m t a ks =>
      obtain ⟨named, names, sound, apart, inside⟩ := kept
      cases letter : t.toList.head?.any Text.isAsciiLetter with
      | false => exact unnamed_misread t a named letter b ks rest whole awaits s
      | true =>
          rw [readsBack, letter, Bool.true_and] at wrong
          cases void : voidNames.contains t with
          | true =>
              rw [void, if_pos rfl] at wrong
              have some : ks ≠ [] := fun none => by rw [none] at wrong; cases wrong
              exact void_misread t a named names sound letter b void ks some rest whole awaits s
          | false =>
              rw [void, if_neg Bool.false_ne_true] at wrong
              cases raw : rawNames.contains t with
              | true =>
                  rw [raw, if_pos rfl] at wrong
                  exact raw_misread t a named names sound letter b owes raw ks inside wrong rest whole awaits s
              | false =>
                  rw [raw, if_neg Bool.false_ne_true] at wrong
                  have start := content_start_read t a named names sound letter b void raw ks s
                  have owing := opens_owes b owes t a
                  have next := Builder.awaits_open b whole t a ks rest awaits
                  exact strays_ahead _ _ whole start (nodes_misread ks inside apart wrong (b.opens t a) owing
                    (.inl (Builder.finish_text_pending b)) whole next _)

theorem nodes_misread (ks : List Tree) (kept : KeptAll ks) (apart : Apart ks) (wrong : allReadBack ks = false)
    (b : Builder) (owes : OwesVoids b) (ready : b.pending = none ∨ ∀ n ∈ ks.head?, n.isElement = true)
    (whole : List Tree) (awaits : b.Awaits ks whole) (s : Chars) : Strays ⟨none, innerHtml ks ++ s, b⟩ whole := by
  cases ks with
  | nil => cases wrong
  | cons n rest =>
      rw [innerHtml, List.append_assoc]
      cases back : readsBack n with
      | false => exact node_misread n kept.1 back b owes rest whole awaits _
      | true =>
          rw [allReadBack, back, Bool.true_and] at wrong
          obtain ⟨owed, voids, read⟩ := node_read_back n kept.1 back b owes (innerHtml rest ++ s)
          refine strays_ahead _ _ whole read ?_
          have next := Builder.awaits_put b whole n rest (kept_lasts (n :: rest) kept n List.mem_cons_self)
            (ready.imp_right fun element => element n rfl) awaits
          exact nodes_misread rest kept.2 apart.2 wrong { b.put n with owed } voids (apart_ready b n rest apart) whole
            next s

end

/-- An element is read back from its HTML just if its names, its void elements and its raw text can be. -/
theorem kept_read_iff (tree : Tree) (kept : Kept tree) (element : tree.isElement = true) :
    read tree.outerHtml = .document () [tree] ↔ readsBack tree = true := by
  have none : OwesVoids {} := fun tag member => by cases member
  rw [read_run, ← List.append_nil tree.outerHtml]
  constructor
  · intro same
    by_contra wrong
    have awaits : Builder.Awaits {} [tree] [tree] := ⟨[tree], [], rfl, rfl⟩
    have strays := node_misread tree kept (Bool.eq_false_iff.mpr wrong) {} none [] [tree] awaits []
    exact strays _ (Nat.lt_succ_self _) (Builder.finish_grows _ [tree] same)
  · intro back
    obtain ⟨owed, -, leads⟩ := node_read_back tree kept back {} none []
    obtain ⟨left, more, same⟩ := leads _ (Nat.lt_succ_self _)
    obtain ⟨left, rfl⟩ : ∃ n, left = n + 1 := ⟨left - 1, by rw [List.length_nil] at more; omega⟩
    rw [same, run_end, Builder.put_element _ _ element]
    rfl

/-- An image with quotes in its title, text with brackets, and a style sheet without. -/
def figure : Tree :=
  .element () "figure" [("class", "wide dark".toList)] [
    .element () "img" [("src", "a.png".toList), ("title", "'a' & \"b\"".toList)] [],
    .element () "p" [] [.text () "1 < 2 & 3".toList],
    .element () "style" [] [.text () "p{}".toList]]

theorem figure_kept : Kept figure ∧ figure.isElement = true ∧ read figure.outerHtml = .document () [figure] := by
  have named : ∀ t ∈ ["figure", "img", "p", "style"], IsTagName t := by decide +kernel
  have names : ∀ t ∈ ["class", "src", "title"], IsAttrName t := by decide +kernel
  have bare (t : String) : IsAttrs t [] := ⟨by decide, fun a member => by cases member⟩
  have kept : Kept figure := by
    refine ⟨named _ (by decide), ?_, ⟨by decide, by decide⟩, by simp [Apart, isElement],
      ⟨named _ (by decide), ?_, ⟨by decide, by decide⟩, trivial, trivial⟩,
      ⟨named _ (by decide), by simp, bare _, by simp [Apart], rfl, trivial⟩,
      ⟨named _ (by decide), by simp, bare _, by simp [Apart], rfl, trivial⟩, trivial⟩
    · exact List.forall_mem_singleton.mpr (names _ (by decide))
    · exact List.forall_mem_cons.mpr ⟨names _ (by decide), List.forall_mem_singleton.mpr (names _ (by decide))⟩
  exact ⟨kept, rfl, (kept_read_iff figure kept rfl).mpr (by decide)⟩

/-- A script that compares two variables. -/
def comparison : Tree := .element () "script" [] [.text () "a<b".toList]

-- The bracket is written with a reference, which is not one in a script.
theorem comparison_misread :
    ¬ ∀ tree, Kept tree → tree.isElement = true → read tree.outerHtml = .document () [tree] := by
  intro always
  have named : IsTagName "script" := by decide +kernel
  have sound : IsAttrs "script" [] := ⟨by decide, fun a member => by cases member⟩
  have kept : Kept comparison := ⟨named, by simp, sound, by simp [Apart], rfl, trivial⟩
  have misread : read comparison.outerHtml = .document () [.element () "script" [] [.text () "a&lt;b".toList]] := rfl
  have same := misread.symm.trans (always comparison kept rfl)
  cases same

end Downmark.Html
