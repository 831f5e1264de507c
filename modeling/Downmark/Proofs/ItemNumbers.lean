import Downmark.Proofs.EndlessLists
import Downmark.Proofs.Integers
import Downmark.Proofs.LabelKeys
/-!
The numbers of the items of a list. Main statement: the markers of a whole list, of a single item and those that are
noted before rendering are the same, counted on from the start; and all of them are markers of ordered lists exactly
if the first number is no less than nought and the last has at most nine digits.
-/

set_option autoImplicit false

namespace Downmark.ListMarker

-- CommonMark has no sign in front of the number of an item, and no tenth digit.
def OrderedMarker (s : Chars) : Prop :=
  ∃ digits : Chars, s = digits ++ ['.', ' '] ∧ 1 ≤ digits.length ∧ digits.length ≤ 9 ∧
    ∀ c ∈ digits, Text.isAsciiDigit c = true

theorem ordered_digits (digits : Chars) : OrderedMarker (digits ++ ['.', ' ']) ↔
    1 ≤ digits.length ∧ digits.length ≤ 9 ∧ ∀ c ∈ digits, Text.isAsciiDigit c = true := by
  constructor
  · rintro ⟨others, same, some, few, all⟩
    obtain rfl := List.append_cancel_right same
    exact ⟨some, few, all⟩
  · exact fun shape => ⟨digits, rfl, shape⟩

theorem of_nat_ordered (n : Nat) : OrderedMarker (Text.ofNat n ++ ['.', ' ']) ↔ n < 10 ^ 9 := by
  have few : (Text.ofNat n).length ≤ 9 ↔ n < 10 ^ 9 := Nat.length_toDigits_le_iff (by decide) (by decide)
  have digits : ∀ c ∈ Text.ofNat n, Text.isAsciiDigit c = true := fun c member => by
    simpa [Text.isAsciiDigit] using Text.of_nat_digits n c member
  rw [ordered_digits, few]
  exact ⟨fun shape => shape.2.1, fun short => ⟨Nat.length_toDigits_pos, short, digits⟩⟩

theorem numbered_ordered (n : Int) : OrderedMarker (numbered n) ↔ 0 ≤ n ∧ n < 10 ^ 9 := by
  unfold numbered Text.ofInt
  split
  · rename_i negative
    rw [ordered_digits]
    constructor
    · rintro ⟨-, -, digits⟩
      exact absurd (digits '-' List.mem_cons_self) (by decide)
    · rintro ⟨positive, -⟩
      omega
  · rw [of_nat_ordered]
    omega

section

variable {μ : Type} (o : Options) (m : μ) (a : Attrs) (ks : List (Node μ))

theorem of_list_numbered : ofList o (.element m "ol" a ks) =
    (List.range (countItems ks)).map fun (i : Nat) => numbered (start a + (i : Int)) := rfl

theorem of_list_length (n : Node μ) : (ofList o n).length = countItems n.kids := by
  unfold ofList
  dsimp only
  split <;> simp

theorem list_markers_ordered : (∀ marker ∈ ofList o (.element m "ol" a ks), OrderedMarker marker) ↔
    countItems ks = 0 ∨ (0 ≤ start a ∧ start a + (countItems ks : Int) ≤ 10 ^ 9) := by
  rw [of_list_numbered, List.forall_mem_map]
  simp only [List.mem_range, numbered_ordered]
  generalize start a = first
  generalize countItems ks = count
  constructor
  · intro all
    rcases Nat.eq_zero_or_pos count with none | some
    · exact .inl none
    · have low := all 0 some
      have high := all (count - 1) (by omega)
      exact .inr (by omega)
  · rintro (none | range) i inside
    · omega
    · omega

theorem short_list_written (range : countItems ks = 0 ∨ (0 ≤ start a ∧ start a + (countItems ks : Int) ≤ 10 ^ 9)) :
    isEndless a ks = false := by
  have power : 10 ^ 9 ≤ 10 ^ Text.maxIntegerDigits := Nat.pow_le_pow_right (by decide) (by decide)
  unfold isEndless
  dsimp only
  rcases range with none | ⟨low, high⟩
  · rw [none]
    rfl
  · rw [short_number _ (Nat.lt_of_lt_of_le (show _ < 10 ^ 9 by omega) power), Bool.and_false]

end

section

variable {μ : Type} (n : Node μ) (rest : List (Node μ))

theorem count_item (named : n.isNamed "li" = true) : countItems (n :: rest) = countItems rest + 1 :=
  List.countP_cons_of_pos named

theorem count_other (named : n.isNamed "li" = false) : countItems (n :: rest) = countItems rest :=
  List.countP_cons_of_neg (by simp [named])

theorem item_element (named : n.isNamed "li" = true) : ∃ m a ks, n = .element m "li" a ks := by
  cases n with
  | element m t a ks =>
      obtain rfl : t = "li" := by simpa [Node.isNamed] using named
      exact ⟨m, a, ks, rfl⟩
  | text | comment | document => cases named

end

-- An item is handed the marker at its place among the items.
theorem handed_at_place (markers : List Chars) (ks before after : List Marked) (item : Marked)
    (split : handOut markers ks = before ++ item :: after) (named : item.isNamed "li" = true)
    (enough : countItems ks ≤ markers.length) : item.mark.marker = markers[countItems before]? := by
  fun_induction handOut markers ks generalizing before with
  | case1 marker markers m a ks rest ih =>
      rw [count_item _ rest rfl, List.length_cons] at enough
      cases before with
      | nil =>
          obtain ⟨rfl, -⟩ := List.cons.inj split
          rfl
      | cons first before =>
          obtain ⟨rfl, later⟩ := List.cons.inj split
          rw [ih before later (by omega), count_item _ before rfl, List.getElem?_cons_succ]
  | case2 markers n rest other ih =>
      -- There are enough markers for all items, so what gets none is no item.
      have plain : n.isNamed "li" = false := by
        by_contra item
        have listed : n.isNamed "li" = true := by simpa using item
        obtain ⟨m, a, ks, rfl⟩ := item_element n listed
        rw [count_item _ rest listed] at enough
        obtain ⟨marker, more, rfl⟩ := List.exists_cons_of_length_pos (Nat.lt_of_lt_of_le (Nat.succ_pos _) enough)
        exact other marker more m a ks rfl rfl
      rw [count_other n rest plain] at enough
      cases before with
      | nil =>
          obtain ⟨rfl, -⟩ := List.cons.inj split
          exact absurd named (by simp [plain])
      | cons first before =>
          obtain ⟨rfl, later⟩ := List.cons.inj split
          rw [ih before later enough, count_other n before plain]
  | case3 => cases before <;> cases split

theorem count_bare (ks : List Marked) : countItems (Node.bareAll ks) = countItems ks := by
  rw [Node.bareAll, Node.map_all_marks_map, countItems, List.countP_map]
  exact congrArg (fun p => ks.countP p) (funext fun child => Node.map_marks_named _ "li" child)

theorem count_handed (markers : List Chars) (ks : List Marked) : countItems (handOut markers ks) = countItems ks := by
  rw [← count_bare, Node.bareAll, hand_out_unnoted _ (fun _ _ => rfl), ← Node.bareAll, count_bare]

theorem count_marked (o : Options) (ks : List Marked) : countItems (markAll o ks) = countItems ks := by
  rw [← count_bare, Node.bareAll, mark_all_unnoted _ (fun _ _ => rfl), ← Node.bareAll, count_bare]

theorem of_list_counted (o : Options) (m : Mark) (t : String) (a : Attrs) (ks ks' : List Marked)
    (same : countItems ks = countItems ks') : ofList o (.element m t a ks) = ofList o (.element m t a ks') := by
  unfold ofList
  dsimp only [Node.kids]
  rw [same]
  rfl

-- The items of a list have got their markers.
def Handed (o : Options) (n : Marked) : Prop :=
  isListTag n.tag = true → ∃ ks, n.kids = handOut (ofList o n) ks

theorem handed_renoted (o : Options) (m m' : Mark) (t : String) (a : Attrs) (ks : List Marked)
    (handed : Handed o (.element m t a ks)) : Handed o (.element m' t a ks) := handed

theorem handed_place (o : Options) (n : Marked) (handed : Handed o n) (list : isListTag n.tag = true)
    (before after : List Marked) (item : Marked) (split : n.kids = before ++ item :: after)
    (named : item.isNamed "li" = true) : item.mark.marker = (ofList o n)[countItems before]? := by
  obtain ⟨ks, out⟩ := handed list
  refine handed_at_place (ofList o n) ks before after item (out.symm.trans split) named ?_
  rw [of_list_length, out, count_handed]

theorem handed_below_items (o : Options) (markers : List Chars) (ks : List Marked)
    (handed : ∀ below ∈ Node.forest ks, Handed o below) :
    ∀ below ∈ Node.forest (handOut markers ks), Handed o below := by
  fun_induction handOut markers ks with
  | case1 marker markers m a ks rest ih =>
      simp only [Node.forest, List.forall_mem_cons, List.forall_mem_append] at handed ⊢
      exact ⟨handed_renoted o m _ "li" a ks handed.1, handed.2.1, ih handed.2.2⟩
  | case2 markers n rest _ ih =>
      simp only [Node.forest, List.forall_mem_cons, List.forall_mem_append] at handed ⊢
      exact ⟨handed.1, handed.2.1, ih handed.2.2⟩
  | case3 => exact handed

mutual

theorem mark_handed (o : Options) (n : Marked) :
    Handed o (mark o n) ∧ ∀ below ∈ (mark o n).descendants, Handed o below := by
  cases n with
  | text | comment => exact ⟨nofun, by simp [mark, Node.descendants]⟩
  | document m ks => exact ⟨nofun, mark_all_handed o ks⟩
  | element m t a ks =>
      have inside := mark_all_handed o ks
      rw [mark]
      split
      · refine ⟨fun _ => ⟨markAll o ks, ?_⟩, handed_below_items o _ _ inside⟩
        rw [of_list_counted o m t a _ ks ((count_handed _ _).trans (count_marked o ks)), Node.kids]
      · exact ⟨fun list => absurd list ‹_›, inside⟩

theorem mark_all_handed (o : Options) (ks : List Marked) : ∀ below ∈ Node.forest (markAll o ks), Handed o below := by
  cases ks with
  | nil => simp [markAll, Node.forest]
  | cons n rest =>
      obtain ⟨here, inside⟩ := mark_handed o n
      rw [markAll, Node.forest, List.forall_mem_cons, List.forall_mem_append]
      exact ⟨here, inside, mark_all_handed o rest⟩

end

theorem rendered_list_handed (o : Options) (root list : Site) (inside : list ∈ ((Render.rootOf root).prepared o).all) :
    Handed o list.node := by
  have listed := List.mem_map_of_mem (f := Site.node) inside
  rw [Site.all, Site.within_nodes] at listed
  obtain ⟨top, below⟩ :=
    mark_handed o (Node.markBlank (Whitespace.collapse o.preformattedCode (Render.rootOf root).node)).1
  rcases List.mem_cons.mp listed with same | deeper
  · exact same ▸ top
  · exact below _ deeper

-- The marker of an item that some nodes stand before, counted over the items among them.
def numberAfter {μ : Type} (a : Attrs) (before : List (Node μ)) : Chars :=
  numbered (start a + (countItems before : Int))

theorem list_number_after (o : Options) (m : Mark) (a : Attrs) (before after : List Marked) (item : Marked)
    (named : item.isNamed "li" = true) :
    (ofList o (.element m "ol" a (before ++ item :: after)))[countItems before]? = some (numberAfter a before) := by
  have count : countItems (before ++ item :: after) = countItems before + (countItems after + 1) := by
    rw [← count_item item after named]
    exact List.countP_append
  rw [of_list_numbered, List.getElem?_map, List.getElem?_range (by omega)]
  rfl

theorem item_number_after (o : Options) (m : Mark) (a : Attrs) (before after : List Marked) (item : Marked)
    (path : List Step) (named : item.isNamed "li" = true) :
    ofItem o ⟨item, ⟨.element m "ol" a, before.reverse, after, true⟩ :: path⟩ = numberAfter a before := by
  have earlier : countItems before.reverse = countItems before := List.countP_reverse
  simp [ofItem, named, earlier, numberAfter]

theorem item_begins (o : Options) (site : Site) (content : Chars) (s : State) :
    ∃ rest, Block.listItem content site o s = .ok (Block.markerOf o site ++ rest) s := by
  obtain ⟨lines, item⟩ : ∃ lines, Block.itemText (Block.markerOf o site) content = Block.markerOf o site ++ lines :=
    ⟨_, rfl⟩
  have value : Block.listItem content site o s = .ok
      (if s.hasFollowingContent o site && (Block.itemText (Block.markerOf o site) content).getLast? != some '\n'
        then Block.itemText (Block.markerOf o site) content ++ ['\n']
        else Block.itemText (Block.markerOf o site) content) s := rfl
  rw [value, item]
  split
  · exact ⟨lines ++ ['\n'], by rw [List.append_assoc]⟩
  · exact ⟨lines, rfl⟩

theorem item_numbers (o : Options) (m : Mark) (a : Attrs) (ks : List Marked) (path : List Step) :
    ofList o (.element m "ol" a ks) =
      ((List.range (countItems ks)).map fun (i : Nat) => numbered (start a + (i : Int))) ∧
    (∀ before item after, ks = before ++ item :: after → item.isNamed "li" = true →
      (ofList o (.element m "ol" a ks))[countItems before]? = some (numberAfter a before) ∧
      ofItem o ⟨item, ⟨.element m "ol" a, before.reverse, after, true⟩ :: path⟩ = numberAfter a before ∧
      ∀ root : Site, ⟨.element m "ol" a ks, path⟩ ∈ ((Render.rootOf root).prepared o).all →
        item.mark.marker = some (numberAfter a before) ∧
        ∀ path content s, ∃ rest,
          Block.listItem content ⟨item, path⟩ o s = .ok (numberAfter a before ++ rest) s) ∧
    ((Render.needsEndlessMarker ⟨.element m "ol" a ks, path⟩ = false ∧
        ∀ marker ∈ ofList o (.element m "ol" a ks), OrderedMarker marker) ↔
      countItems ks = 0 ∨ (0 ≤ start a ∧ start a + (countItems ks : Int) ≤ 10 ^ 9)) := by
  refine ⟨rfl, ?_, ?_⟩
  · rintro before item after rfl named
    have place := list_number_after o m a before after item named
    refine ⟨place, item_number_after o m a before after item path named, fun root inside => ?_⟩
    have handed := rendered_list_handed o root _ inside
    have noted : item.mark.marker = some (numberAfter a before) := by
      rw [handed_place o _ handed rfl before after item rfl named, place]
    refine ⟨noted, fun path content s => ?_⟩
    have written := item_begins o ⟨item, path⟩ content s
    rwa [Block.markerOf, noted] at written
  · rw [list_markers_ordered]
    exact ⟨fun accepted => accepted.2, fun range => ⟨short_list_written a ks range, range⟩⟩

-- Only the items are counted, whatever stands between them.
def scatteredItems : Tree :=
  .element () "ol" [("start", " +0_7 ".toList)]
    [.text () ['x'], .element () "li" [] [.text () ['a']], .comment () ['c'], .element () "p" [] [.text () ['y']],
      .element () "li" [] [.text () ['b']]]

theorem scattered_items_numbered : ∃ m ks before item,
    prepare {} (Site.ofTree scatteredItems).node = .element m "ol" [("start", " +0_7 ".toList)] ks ∧
      before ++ [item] = ks ∧ countItems before = 1 ∧ item.mark.marker = some "8. ".toList ∧
      ofItem {} ⟨item, [⟨.element m "ol" [("start", " +0_7 ".toList)], before.reverse, [], true⟩]⟩ = "8. ".toList ∧
      ∀ marker ∈ ofList {} (.element m "ol" [("start", " +0_7 ".toList)] ks), OrderedMarker marker := by
  obtain ⟨m, ks, before, item, shape, split, named, count⟩ : ∃ m ks before item,
      prepare {} (Site.ofTree scatteredItems).node = .element m "ol" [("start", " +0_7 ".toList)] ks ∧
        before ++ [item] = ks ∧ item.isNamed "li" = true ∧ countItems before = 1 :=
    ⟨_, _, [_, _, _, _], _, rfl, rfl, rfl, rfl⟩
  have first : start [("start", " +0_7 ".toList)] = 7 := by decide
  have inside : (⟨.element m "ol" [("start", " +0_7 ".toList)] ks, []⟩ : Site) ∈
      ((Render.rootOf (Site.ofTree scatteredItems)).prepared {}).all := by
    rw [← shape]
    exact List.mem_cons_self
  have total : countItems ks = 2 := by
    rw [← split, countItems, List.countP_append, ← countItems, count]
    simp [named]
  obtain ⟨-, placed, ordered⟩ := item_numbers {} m [("start", " +0_7 ".toList)] ks []
  obtain ⟨-, own, noted⟩ := placed before item [] split.symm named
  have number : numberAfter [("start", " +0_7 ".toList)] before = "8. ".toList := by
    rw [numberAfter, first, count]
    decide
  rw [number] at own noted
  refine ⟨m, ks, before, item, shape, split, count, (noted (Site.ofTree scatteredItems) inside).1, own, ?_⟩
  exact (ordered.mpr (.inr (by rw [first, total]; decide))).2

-- A sign is read as part of the number, and written in front of it.
theorem signed_marker_written : ¬ ∀ (o : Options) (m : Mark) (a : Attrs) (ks : List Marked),
    ∀ marker ∈ ofList o (.element m "ol" a ks), OrderedMarker marker := by
  intro always
  obtain ⟨digits, same, -, -, all⟩ := always {} {} [("start", ['-', '1'])] [.element {} "li" [] []] "-1. ".toList
    (by decide)
  cases digits with
  | nil => cases same
  | cons sign digits =>
      obtain ⟨rfl, -⟩ := List.cons.inj same
      exact absurd (all '-' List.mem_cons_self) (by decide)

end Downmark.ListMarker
