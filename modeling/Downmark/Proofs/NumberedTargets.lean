import Downmark.Proofs.CollectorCalls
import Downmark.Proofs.Targets
/-!
Numbering targets. What a collector holds after it was asked for the numbers of some targets is told by these
targets alone. Main statement: they are numbered from one on in the order in which they first come up, and a
target keeps its number whatever comes up later.
-/

set_option autoImplicit false

namespace Downmark

def numberOf (ts : List Target) (t : Target) : Chars := Text.ofNat (ts.eraseDups.idxOf t + 1)

def definitions (ts : List Target) : List Reference.Link :=
  ts.eraseDups.mapIdx fun i t => { label := Text.ofNat (i + 1), url := t.1, title := t.2 }

-- The targets that come up are numbered from one on without a gap, in the order in which each first comes up.
structure Numbers (ts : List Target) (links : List Reference.Link) : Prop where
  labels : links.map Reference.Link.label = (List.range links.length).map fun i => Text.ofNat (i + 1)
  targets : links.map (fun link => (link.url, link.title)) = ts.eraseDups
  used : ∀ t ∈ ts, ∃ link ∈ links, link.label = numberOf ts t ∧ (link.url, link.title) = t

theorem definitions_number (ts : List Target) : Numbers ts (definitions ts) where
  labels := by
    refine List.ext_getElem (by simp) fun i _ _ => ?_
    simp [definitions]
  targets := by
    refine List.ext_getElem (by simp [definitions]) fun i _ _ => ?_
    simp [definitions]
  used := by
    intro t found
    have small := List.idxOf_lt_length_of_mem (List.mem_eraseDups.mpr found)
    refine ⟨{ label := numberOf ts t, url := t.1, title := t.2 }, List.mem_mapIdx.mpr ⟨_, small, ?_⟩, rfl, rfl⟩
    rw [List.getElem_idxOf]
    rfl

theorem erase_dups_seen (ts : List Target) (t : Target) (seen : t ∈ ts) : (ts ++ [t]).eraseDups = ts.eraseDups := by
  rw [List.eraseDups_append]
  simp [List.removeAll, seen]

theorem erase_dups_new (ts : List Target) (t : Target) (new : t ∉ ts) :
    (ts ++ [t]).eraseDups = ts.eraseDups ++ [t] := by
  rw [List.eraseDups_append]
  simp [List.removeAll, new, List.eraseDups_cons]

theorem number_kept (ts more : List Target) (t : Target) (seen : t ∈ ts) : numberOf (ts ++ more) t = numberOf ts t := by
  rw [numberOf, List.eraseDups_append, List.idxOf_append_of_mem (List.mem_eraseDups.mpr seen), numberOf]

theorem numbers_kept (ts : List Target) (t : Target) :
    (ts.eraseDups.map fun u => (u, numberOf (ts ++ [t]) u)) = ts.eraseDups.map fun u => (u, numberOf ts u) :=
  List.map_congr_left fun u member => by rw [number_kept ts [t] u (List.mem_eraseDups.mp member)]

theorem number_new (ts : List Target) (t : Target) (new : t ∉ ts) :
    numberOf (ts ++ [t]) t = Text.ofNat (ts.eraseDups.length + 1) := by
  have absent : t ∉ ts.eraseDups := mt List.mem_eraseDups.mp new
  rw [numberOf, erase_dups_new ts t new, List.idxOf_append_of_notMem absent, List.idxOf_cons_self, Nat.add_zero]

theorem definitions_new (ts : List Target) (t : Target) (new : t ∉ ts) :
    definitions (ts ++ [t]) = definitions ts ++ [{ label := numberOf (ts ++ [t]) t, url := t.1, title := t.2 }] := by
  rw [definitions, erase_dups_new ts t new, List.mapIdx_concat, number_new ts t new]
  rfl

namespace Reference

-- What a collector holds after it was asked for the numbers of some targets.
def Collector.ofTargets (ts : List Target) : Collector where
  links := (definitions ts).map fun link => (labelKey link.label, link)
  numbers := ts.eraseDups.map fun t => (t, numberOf ts t)
  nextNumber := ts.eraseDups.length + 1

namespace Collector

theorem lookup_number (ts : List Target) (t : Target) (seen : t ∈ ts) :
    (ofTargets ts).numbers.lookup t = some (numberOf ts t) := by
  have found (l : List Target) (member : t ∈ l) :
      (l.map fun t => (t, numberOf ts t)).lookup t = some (numberOf ts t) := by
    induction l with
    | nil => cases member
    | cons u l ih =>
        rw [List.map_cons, List.lookup_cons]
        by_cases same : t = u
        · simp [same]
        · have later : t ∈ l := by simpa [same] using member
          have differs : (t == u) = false := by simpa using same
          rw [differs, ← ih later]
  exact found _ (List.mem_eraseDups.mpr seen)

theorem lookup_none (ts : List Target) (t : Target) (new : t ∉ ts) : (ofTargets ts).numbers.lookup t = none := by
  rw [List.lookup_eq_none_iff]
  intro entry member
  obtain ⟨u, listed, rfl⟩ := List.mem_map.mp member
  have other : t ≠ u := by
    rintro rfl
    exact new (List.mem_eraseDups.mp listed)
  simpa using other

theorem number_unused (ts : List Target) (n : Nat) (later : ts.eraseDups.length < n) :
    (ofTargets ts).find? (Text.ofNat n) = none := by
  rw [find_none_iff, number_key]
  intro member
  simp only [ofTargets, List.map_map, List.mem_map, Function.comp_apply] at member
  obtain ⟨link, listed, key⟩ := member
  obtain ⟨i, small, rfl⟩ := List.mem_mapIdx.mp listed
  have same := Text.of_nat_injective ((number_key (i + 1)).symm.trans key)
  omega

theorem free_number (ts : List Target) : (ofTargets ts).freeNumber = ts.eraseDups.length + 1 := by
  have unused := number_unused ts _ (Nat.lt_succ_self ts.eraseDups.length)
  exact (ofTargets ts).free_number_least.unique ⟨⟨Nat.le_refl _, unused⟩, fun n free => free.1⟩

theorem of_targets_seen (ts : List Target) (t : Target) (seen : t ∈ ts) : ofTargets (ts ++ [t]) = ofTargets ts := by
  unfold ofTargets definitions
  rw [erase_dups_seen ts t seen, numbers_kept]

theorem of_targets_new (ts : List Target) (t : Target) (new : t ∉ ts) : ofTargets (ts ++ [t]) =
    { links := (ofTargets ts).links ++
        [(numberOf (ts ++ [t]) t, { label := numberOf (ts ++ [t]) t, url := t.1, title := t.2 })]
      numbers := (ofTargets ts).numbers ++ [(t, numberOf (ts ++ [t]) t)]
      nextNumber := ts.eraseDups.length + 2 } := by
  have key : labelKey (numberOf (ts ++ [t]) t) = numberOf (ts ++ [t]) t := number_key _
  unfold ofTargets
  rw [definitions_new ts t new, erase_dups_new ts t new]
  simp [numbers_kept, key]

theorem add_numbered (ts : List Target) (t : Target) :
    ∃ added, (ofTargets ts).addNumbered t.1 t.2 = (added, ofTargets (ts ++ [t])) ∧
      added.label = numberOf (ts ++ [t]) t ∧ ∀ fresh, added ≠ .renamed fresh := by
  by_cases seen : t ∈ ts
  · have found := lookup_number ts t seen
    refine ⟨.reused (numberOf ts t), ?_, (number_kept ts [t] t seen).symm, by simp⟩
    rw [addNumbered, found, of_targets_seen ts t seen]
  · have none := lookup_none ts t seen
    let issued : Collector := { ofTargets ts with nextNumber := ts.eraseDups.length + 2 }
    have number : (ofTargets ts).issueNumber = (numberOf (ts ++ [t]) t, issued) := by
      rw [issueNumber, free_number, number_new ts t seen]
    have free : issued.find? (numberOf (ts ++ [t]) t) = .none := by
      rw [number_new ts t seen]
      exact number_unused ts _ (Nat.lt_succ_self _)
    have chosen : issued.choose (numberOf (ts ++ [t]) t) t.1 t.2 = 0 := by
      refine Nat.le_zero.mp ((issued.choose_least _ t.1 t.2).2 ?_)
      change issued.fits t.1 t.2 (numberOf (ts ++ [t]) t) = true
      rw [fits, free]
    have added : issued.add (numberOf (ts ++ [t]) t) t.1 t.2 = (.asAsked (numberOf (ts ++ [t]) t),
        issued.push { label := numberOf (ts ++ [t]) t, url := t.1, title := t.2 }) := by
      have first : candidate (numberOf (ts ++ [t]) t) 0 = numberOf (ts ++ [t]) t := rfl
      simp only [add, chosen, first, free]
      rfl
    have key : labelKey (numberOf (ts ++ [t]) t) = numberOf (ts ++ [t]) t := number_key _
    refine ⟨.asAsked (numberOf (ts ++ [t]) t), ?_, rfl, by simp⟩
    rw [addNumbered, none]
    simp only [number, added]
    rw [of_targets_new ts t seen]
    simp only [push, key, issued, Added.label]

end Collector

end Reference

end Downmark
