import Mathlib.Order.Bounds.Basic
import Mathlib.Data.List.Nodup
import Mathlib.Data.List.Perm.Subperm
import Downmark.Proofs.LabelKeys
/-!
What a collector of link definitions keeps over any calls. Labels that are asked for, their numbered
forms and the numbers that are issued share one set of keys; a definition that was once answered stays
where it is until all are written. Main statement: after any calls every search ends at its first
hit, no two labels are the same, each answer since the last flush names exactly the definition it
was asked for and is given again, and the definitions stand in the order in which they were first
named.
-/

set_option autoImplicit false

namespace Downmark.Reference

/-- A request to a collector. -/
inductive Call where
  | add (label url : Chars) (title : Option Chars)
  | addNumbered (url : Chars) (title : Option Chars)
  | nextNumber
  | flush

/-- The definition that a call with this answer is about. -/
def Call.link? : Call → Chars → Option Link
  | .add _ url title, answer => some { label := answer, url, title }
  | .addNumbered url title, answer => some { label := answer, url, title }
  | .nextNumber, _ => none
  | .flush, _ => none

theorem link_label (call : Call) (answer : Chars) (link : Link)
    (asks : call.link? answer = some link) : link.label = answer := by
  cases call <;> cases asks <;> rfl

/-- Whether a label in the text leads to a definition. -/
def Link.meets (label : Chars) (link : Link) : Bool := labelKey link.label == labelKey label

theorem only_match (links : List Link) (link : Link)
    (apart : (links.map fun link => labelKey link.label).Nodup) (member : link ∈ links) :
    links.filter (Link.meets link.label) = [link] := by
  induction links with
  | nil => cases member
  | cons head rest ih =>
      rw [List.map_cons, List.nodup_cons] at apart
      rcases List.mem_cons.mp member with rfl | later
      · have others : ∀ other ∈ rest, ¬ Link.meets link.label other = true :=
          fun other stored same => apart.1 (eq_of_beq same ▸ List.mem_map_of_mem stored)
        have own : Link.meets link.label link = true := beq_self_eq_true _
        rw [List.filter_cons_of_pos own, List.filter_eq_nil_iff.mpr others]
      · have differs : ¬ Link.meets link.label head = true :=
          fun same => apart.1 (eq_of_beq same ▸ List.mem_map_of_mem later)
        rw [List.filter_cons_of_neg differs, ih apart.2 later]

/-- The definitions with one more at the end, unless it is among them. -/
def noted (links : List Link) : Option Link → List Link
  | none => links
  | some link => if link ∈ links then links else links ++ [link]

theorem noted_mem (links : List Link) (link : Link) (member : link ∈ links) :
    noted links (some link) = links := if_pos member

theorem noted_new (links : List Link) (link : Link) (absent : link ∉ links) :
    noted links (some link) = links ++ [link] := if_neg absent

theorem mem_noted (links : List Link) (link : Link) : link ∈ noted links (some link) := by
  by_cases member : link ∈ links
  · rwa [noted_mem links link member]
  · simp [noted_new links link member]

theorem erase_dups_noted (links : List Link) (link? : Option Link) :
    (links ++ link?.toList).eraseDups = noted links.eraseDups link? := by
  rw [List.eraseDups_append]
  cases link? with
  | none => simp [noted]
  | some link =>
      by_cases member : link ∈ links
      · rw [noted_mem _ _ (List.mem_eraseDups.mpr member)]
        simp [List.removeAll, member]
      · rw [noted_new _ _ (mt List.mem_eraseDups.mp member)]
        simp [List.removeAll, member, List.eraseDups_cons]

namespace Collector

/-- The text that is given back for a call, and the collector after it. -/
def call (c : Collector) : Call → Chars × Collector
  | .add label url title => ((c.add label url title).1.label, (c.add label url title).2)
  | .addNumbered url title => ((c.addNumbered url title).1.label, (c.addNumbered url title).2)
  | .nextNumber => c.issueNumber
  | .flush => c.flush

theorem find_none_iff (c : Collector) (label : Chars) :
    c.find? label = none ↔ labelKey label ∉ c.links.map (·.1) := by
  simp only [find?, List.lookup_eq_none_iff, bne_iff_ne, List.mem_map, not_exists, not_and]
  exact forall₂_congr fun _ _ => ne_comm

/-- A search through labels with different keys ends within one more step than there are
definitions. -/
theorem search_ends (c : Collector) (label : Nat → Chars) (p : Nat → Bool)
    (apart : Function.Injective fun n => labelKey (label n))
    (free : ∀ n, c.find? (label n) = none → p n = true) :
    IsLeast {n | p n = true} (((List.range (c.links.length + 1)).find? p).getD 0) := by
  have hit : ∃ n ∈ List.range (c.links.length + 1), p n = true := by
    by_contra none
    have taken : (List.range (c.links.length + 1)).map (fun n => labelKey (label n)) ⊆
        c.links.map (·.1) := by
      intro key member
      obtain ⟨n, small, rfl⟩ := List.mem_map.mp member
      by_contra absent
      exact none ⟨n, small, free n ((c.find_none_iff _).mpr absent)⟩
    have short := ((List.nodup_range.map apart).subperm taken).length_le
    simp only [List.length_map, List.length_range] at short
    omega
  obtain ⟨first, found⟩ := Option.isSome_iff_exists.mp (List.find?_isSome.mpr hit)
  obtain ⟨good, -, before⟩ := List.find?_range_eq_some.mp found
  rw [found, Option.getD_some]
  refine ⟨good, fun n fits => Nat.le_of_not_lt fun less => ?_⟩
  have miss := before n less
  rw [show p n = true from fits] at miss
  cases miss

theorem choose_least (c : Collector) (label url : Chars) (title : Option Chars) :
    IsLeast {n | c.fits url title (candidate label n) = true} (c.choose label url title) :=
  c.search_ends (candidate label) (fun n => c.fits url title (candidate label n))
    (candidate_keys_injective label) fun n none => by rw [fits, none]

theorem free_number_least (c : Collector) :
    IsLeast {n | c.nextNumber ≤ n ∧ c.find? (Text.ofNat n) = none} c.freeNumber := by
  obtain ⟨free, first⟩ := c.search_ends (fun n => Text.ofNat (c.nextNumber + n))
    (fun n => (c.find? (Text.ofNat (c.nextNumber + n))).isNone)
    (number_keys_injective c.nextNumber) fun n none => by rw [none]; rfl
  constructor
  · refine ⟨Nat.le_add_left _ _, ?_⟩
    rw [freeNumber, Nat.add_comm]
    exact Option.isNone_iff_eq_none.mp free
  · rintro n ⟨later, none⟩
    have skipped := first (a := n - c.nextNumber) (by
      show Option.isNone _ = true
      rw [Nat.add_sub_cancel' later, none]
      rfl)
    rw [freeNumber]
    omega

/-- The definitions have different labels and stand under the keys of them, and the label of a
numbered target leads to it. -/
structure Sound (c : Collector) : Prop where
  keyed : c.links.map (·.1) = c.toList.map fun link => labelKey link.label
  apart : (c.toList.map fun link => labelKey link.label).Nodup
  numbered : ∀ url title label, c.numbers.lookup (url, title) = some label →
    { label, url, title } ∈ c.toList

/-- What was found in a collector is still found later. -/
structure Grows (c d : Collector) : Prop where
  links : c.links <+: d.links
  numbers : ∀ target label, c.numbers.lookup target = some label → d.numbers.lookup target = some label

/-- A call would be answered from what is stored. -/
def Answers (c : Collector) : Call → Chars → Prop
  | .add label url title, answer => ∃ n, (∀ m < n, c.fits url title (candidate label m) = false) ∧
      c.find? (candidate label n) = some { label := answer, url, title }
  | .addNumbered url title, answer => c.numbers.lookup (url, title) = some answer
  | .nextNumber, _ => True
  | .flush, _ => True

theorem grows_refl (c : Collector) : c.Grows c := ⟨List.prefix_rfl, fun _ _ found => found⟩

theorem grows_trans {b c d : Collector} (first : b.Grows c) (second : c.Grows d) : b.Grows d :=
  ⟨first.links.trans second.links,
    fun target label found => second.numbers target label (first.numbers target label found)⟩

theorem find_grows {c d : Collector} (grows : c.Grows d) (label : Chars) (link : Link)
    (found : c.find? label = some link) : d.find? label = some link := by
  obtain ⟨later, eq⟩ := grows.links
  rw [find?] at found ⊢
  rw [← eq, List.lookup_append, found, Option.some_or]

theorem misfit_grows {c d : Collector} (grows : c.Grows d) (url : Chars) (title : Option Chars)
    (label : Chars) (misfit : c.fits url title label = false) : d.fits url title label = false := by
  unfold fits at misfit ⊢
  cases found : c.find? label with
  | none => simp [found] at misfit
  | some link =>
      rw [find_grows grows label link found]
      simpa [found] using misfit

theorem answers_grow {c d : Collector} (grows : c.Grows d) (call : Call) (answer : Chars)
    (answers : c.Answers call answer) : d.Answers call answer := by
  cases call with
  | add label url title =>
      obtain ⟨n, before, found⟩ := answers
      exact ⟨n, fun m less => misfit_grows grows url title _ (before m less),
        find_grows grows _ _ found⟩
  | addNumbered url title => exact grows.numbers _ _ answers
  | nextNumber => trivial
  | flush => trivial

theorem find_mem (c : Collector) (label : Chars) (link : Link) (found : c.find? label = some link) :
    link ∈ c.toList := by
  obtain ⟨before, after, eq, -⟩ := List.lookup_eq_some_iff.mp found
  rw [toList, eq]
  simp

theorem find_push (c : Collector) (link : Link) (free : c.find? link.label = none) :
    (c.push link).find? link.label = some link := by
  rw [find?] at free ⊢
  rw [push, List.lookup_append, free, Option.none_or, List.lookup_cons_self]

theorem push_toList (c : Collector) (link : Link) : (c.push link).toList = c.toList ++ [link] := by
  simp [push, toList]

theorem push_grows (c : Collector) (link : Link) : c.Grows (c.push link) :=
  ⟨List.prefix_append _ _, fun _ _ found => found⟩

theorem not_mem_of_free (c : Collector) (sound : c.Sound) (link : Link)
    (free : c.find? link.label = none) : link ∉ c.toList := by
  intro member
  refine (c.find_none_iff link.label).mp free ?_
  rw [sound.keyed]
  exact List.mem_map_of_mem member

theorem push_sound (c : Collector) (sound : c.Sound) (link : Link)
    (free : c.find? link.label = none) : (c.push link).Sound where
  keyed := by
    rw [push_toList, List.map_append, ← sound.keyed]
    simp [push]
  apart := by
    have fresh := sound.keyed ▸ (c.find_none_iff link.label).mp free
    rw [push_toList, List.map_append, List.map_singleton, ← List.concat_eq_append]
    exact sound.apart.concat fresh
  numbered := fun url title label found => by
    rw [push_toList]
    exact List.mem_append_left _ (sound.numbered url title label found)

/-- What a call does to a collector, unless it writes the definitions out. -/
structure Keeps (c : Collector) (call : Call) (answer : Chars) (d : Collector) : Prop where
  sound : d.Sound
  grows : c.Grows d
  answers : d.Answers call answer
  stored : d.toList = noted c.toList (call.link? answer)

-- The candidates before the chosen one are taken by other targets, and stay so.
theorem add_keeps (c : Collector) (sound : c.Sound) (label url : Chars) (title : Option Chars) :
    c.Keeps (.add label url title) (c.add label url title).1.label (c.add label url title).2 := by
  obtain ⟨fits, first⟩ := c.choose_least label url title
  have before : ∀ m < c.choose label url title, c.fits url title (candidate label m) = false :=
    fun m less => Bool.eq_false_of_not_eq_true fun fits => Nat.not_lt.mpr (first fits) less
  cases found : c.find? (candidate label (c.choose label url title)) with
  | some link =>
      have added : c.add label url title = (.reused link.label, c) := by simp only [add, found]
      have target : link = { label := link.label, url, title } := by
        have fits : c.fits url title (candidate label (c.choose label url title)) = true := fits
        simp only [Collector.fits, found, Bool.and_eq_true, beq_iff_eq] at fits
        rw [← fits.1, ← fits.2]
      rw [added]
      exact {
        sound
        grows := c.grows_refl
        answers := ⟨_, before, target ▸ found⟩
        stored := (noted_mem _ _ (target ▸ c.find_mem _ link found)).symm }
  | none =>
      let link : Link := { label := candidate label (c.choose label url title), url, title }
      have named : (c.add label url title).1.label = link.label := by
        simp only [add, found]
        split <;> rfl
      have pushed : (c.add label url title).2 = c.push link := by simp only [add, found, link]
      rw [named, pushed]
      exact {
        sound := c.push_sound sound link found
        grows := c.push_grows link
        answers := ⟨_, fun m less => misfit_grows (c.push_grows link) _ _ _ (before m less),
          c.find_push link found⟩
        stored := by
          rw [push_toList]
          exact (noted_new _ link (c.not_mem_of_free sound link found)).symm }

theorem add_numbers (c : Collector) (label url : Chars) (title : Option Chars) :
    (c.add label url title).2.numbers = c.numbers := by
  simp only [add]
  split <;> rfl

/-- A collector that remembers the label of a numbered target. -/
def number (c : Collector) (url : Chars) (title : Option Chars) (label : Chars) : Collector :=
  { c with numbers := c.numbers ++ [((url, title), label)] }

theorem number_sound (c : Collector) (sound : c.Sound) (link : Link) (stored : link ∈ c.toList) :
    (c.number link.url link.title link.label).Sound where
  keyed := sound.keyed
  apart := sound.apart
  numbered := fun url title label found => by
    rw [number, List.lookup_append, Option.or_eq_some_iff] at found
    rcases found with old | ⟨-, new⟩
    · exact sound.numbered url title label old
    · simp only [List.lookup_cons, List.lookup_nil] at new
      split at new
      · next same =>
          cases new
          cases eq_of_beq same
          exact stored
      · cases new

theorem number_grows (c : Collector) (url : Chars) (title : Option Chars) (label : Chars) :
    c.Grows (c.number url title label) where
  links := List.prefix_rfl
  numbers := fun target label found => by rw [number, List.lookup_append, found, Option.some_or]

theorem add_numbered_keeps (c : Collector) (sound : c.Sound) (url : Chars) (title : Option Chars) :
    c.Keeps (.addNumbered url title) (c.addNumbered url title).1.label (c.addNumbered url title).2 := by
  cases found : c.numbers.lookup (url, title) with
  | some label =>
      have added : c.addNumbered url title = (.reused label, c) := by simp only [addNumbered, found]
      rw [added]
      exact {
        sound
        grows := c.grows_refl
        answers := found
        stored := (noted_mem _ _ (sound.numbered url title label found)).symm }
  | none =>
      have issued : c.issueNumber.2.Sound := ⟨sound.keyed, sound.apart, sound.numbered⟩
      have kept := c.issueNumber.2.add_keeps issued c.issueNumber.1 url title
      have numbers := c.issueNumber.2.add_numbers c.issueNumber.1 url title
      obtain ⟨added, d, eq⟩ : ∃ added d, c.issueNumber.2.add c.issueNumber.1 url title = (added, d) :=
        ⟨_, _, rfl⟩
      rw [eq] at kept numbers
      have result : c.addNumbered url title = (added, d.number url title added.label) := by
        simp only [addNumbered, found, eq]
        rfl
      have stored : { label := added.label, url, title } ∈ d.toList := by
        rw [kept.stored]
        exact mem_noted _ _
      rw [result]
      exact {
        sound := d.number_sound kept.sound _ stored
        grows := grows_trans ⟨kept.grows.links, kept.grows.numbers⟩ (d.number_grows url title _)
        answers := by
          have free : d.numbers.lookup (url, title) = none := numbers ▸ found
          simp only [Answers, number, List.lookup_append, free, List.lookup_cons_self, Option.none_or]
        stored := kept.stored }

theorem call_keeps (c : Collector) (sound : c.Sound) (call : Call) (stays : call ≠ .flush) :
    c.Keeps call (c.call call).1 (c.call call).2 := by
  cases call with
  | add label url title => exact c.add_keeps sound label url title
  | addNumbered url title => exact c.add_numbered_keeps sound url title
  | nextNumber =>
      exact {
        sound := ⟨sound.keyed, sound.apart, sound.numbered⟩
        grows := ⟨List.prefix_rfl, fun _ _ found => found⟩
        answers := trivial
        stored := rfl }
  | flush => exact absurd rfl stays

theorem answers_again (c : Collector) (call : Call) (answer : Chars) (link : Link)
    (asks : call.link? answer = some link) (answers : c.Answers call answer) :
    c.call call = (answer, c) := by
  cases call with
  | add label url title =>
      obtain ⟨n, before, found⟩ := answers
      have least : IsLeast {n | c.fits url title (candidate label n) = true} n := by
        refine ⟨?_, fun m fits => Nat.le_of_not_lt fun less => ?_⟩
        · simp [fits, found]
        · exact Bool.false_ne_true ((before m less).symm.trans fits)
      have chosen := (c.choose_least label url title).unique least
      simp only [Collector.call, add, chosen, found]
      rfl
  | addNumbered url title =>
      have found : c.numbers.lookup (url, title) = some answer := answers
      simp only [Collector.call, addNumbered, found]
      rfl
  | nextNumber => cases asks
  | flush => cases asks

theorem answers_mem (c : Collector) (sound : c.Sound) (call : Call) (answer : Chars) (link : Link)
    (asks : call.link? answer = some link) (answers : c.Answers call answer) : link ∈ c.toList := by
  cases call with
  | add label url title =>
      obtain ⟨n, -, found⟩ := answers
      cases asks
      exact c.find_mem _ _ found
  | addNumbered url title =>
      cases asks
      exact sound.numbered url title answer answers
  | nextNumber => cases asks
  | flush => cases asks

end Collector

/-- A collector with what it answered since it was last written out. -/
structure History where
  collector : Collector := {}
  answered : List (Call × Chars) := []

namespace History

/-- A call, which is forgotten as all the others are when the definitions are written out. -/
def call (h : History) (call : Call) : History :=
  let (answer, collector) := h.collector.call call
  match call with
  | .flush => { collector }
  | call => { collector, answered := h.answered ++ [(call, answer)] }

/-- The definitions that the answers are about, each as often as it was asked for. -/
def named (h : History) : List Link := h.answered.filterMap fun (call, answer) => call.link? answer

/-- What calls lead to, from a new collector on. -/
def after (calls : List Call) : History := calls.foldl History.call {}

/-- All answers could be given again, and they name the definitions that are stored. -/
structure Kept (h : History) : Prop where
  sound : h.collector.Sound
  answers : ∀ entry ∈ h.answered, h.collector.Answers entry.1 entry.2
  stored : h.collector.toList = h.named.eraseDups

theorem new_kept : ({} : History).Kept where
  sound := ⟨rfl, List.nodup_nil, fun _ _ _ found => nomatch found⟩
  answers := fun _ member => nomatch member
  stored := rfl

theorem call_answered (h : History) (call : Call) (stays : call ≠ .flush) : h.call call =
    { collector := (h.collector.call call).2,
      answered := h.answered ++ [(call, (h.collector.call call).1)] } := by
  cases call with
  | flush => exact absurd rfl stays
  | _ => rfl

theorem named_answered (answered : List (Call × Chars)) (c d : Collector) (call : Call)
    (answer : Chars) : named { collector := d, answered := answered ++ [(call, answer)] } =
    named { collector := c, answered } ++ (call.link? answer).toList := by
  rw [named, named, List.filterMap_append]
  cases asks : call.link? answer <;> simp [asks]

theorem call_kept (h : History) (kept : h.Kept) (call : Call) : (h.call call).Kept := by
  by_cases stays : call = .flush
  · subst stays
    exact new_kept
  · have keeps := h.collector.call_keeps kept.sound call stays
    rw [call_answered h call stays]
    exact {
      sound := keeps.sound
      answers := fun entry member => by
        rcases List.mem_append.mp member with old | new
        · exact Collector.answers_grow keeps.grows _ _ (kept.answers entry old)
        · cases List.mem_singleton.mp new
          exact keeps.answers
      stored := by
        rw [keeps.stored, kept.stored, named_answered, erase_dups_noted] }

theorem after_kept (calls : List Call) : (after calls).Kept := by
  suffices run : ∀ h : History, h.Kept → (calls.foldl History.call h).Kept from run {} new_kept
  induction calls with
  | nil => exact fun h kept => kept
  | cons call calls ih => exact fun h kept => ih (h.call call) (h.call_kept kept call)

end History

theorem collector_safe (calls : List Call) :
    let h := History.after calls
    let c := h.collector
    (∀ label url title, IsLeast {n | c.fits url title (Collector.candidate label n) = true}
      (c.choose label url title)) ∧
    IsLeast {n | c.nextNumber ≤ n ∧ c.find? (Text.ofNat n) = none} c.freeNumber ∧
    (c.toList.map fun link => labelKey link.label).Nodup ∧
    (∀ call answer link, (call, answer) ∈ h.answered → call.link? answer = some link →
      c.toList.filter (Link.meets answer) = [link] ∧ c.call call = (answer, c)) ∧
    c.toList = h.named.eraseDups ∧
    c.call .flush = (Text.unlines (h.named.eraseDups.map Link.toMarkdown), {}) := by
  intro h c
  have kept : h.Kept := History.after_kept calls
  refine ⟨c.choose_least, c.free_number_least, kept.sound.apart, ?answered, kept.stored, ?flushed⟩
  case answered =>
    intro call answer link member asks
    have answers : c.Answers call answer := kept.answers (call, answer) member
    have stored := c.answers_mem kept.sound call answer link asks answers
    have only := only_match c.toList link kept.sound.apart stored
    exact ⟨link_label call answer link asks ▸ only, c.answers_again call answer link asks answers⟩
  case flushed =>
    rw [← kept.stored]
    simp only [Collector.call, Collector.flush, Collector.toMarkdown, Collector.toList, List.map_map]
    rfl

-- The second form of the empty label is the number two, which is then not issued.
example : (History.after [.add [] ['a'] none, .add [] ['b'] none, .addNumbered ['c'] none,
    .addNumbered ['d'] none]).answered.map (·.2) = [[], [' ', '2'], ['1'], ['3']] := by decide

end Downmark.Reference
