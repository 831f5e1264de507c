import Downmark.Proofs.CollectorCalls
import Downmark.Proofs.ReadReferences
import Downmark.Proofs.Targets
/-!
References that are made one after the other, each with the label that a collector gives for its text. The label may
be another one than the text, but it can be read where the text can. Main statement: after all of them were made,
the label of each leads to its own target.
-/

set_option autoImplicit false

namespace Downmark.Reference

-- What a label leads to: the target of the first definition that it meets.
def resolve (links : List Link) (label : Chars) : Option Target :=
  (links.find? (Link.meets label)).map fun link => (link.url, link.title)

def Citation.target (cited : Citation) : Target := (cited.url, cited.title)

-- References that are made with one collector, from the first to the last.
inductive Filed (c : Collector) : List Citation → Collector → Prop where
  | none : Filed c [] c
  | next (cites : List Citation) (d : Collector) (cited : Citation) (before : Filed c cites d)
      (label : cited.label = (d.add cited.text cited.url cited.title).1.label) :
      Filed c (cites ++ [cited]) (d.add cited.text cited.url cited.title).2

theorem resolve_own (links : List Link) (link : Link) (apart : (links.map fun link => labelKey link.label).Nodup)
    (member : link ∈ links) : resolve links link.label = some (link.url, link.title) := by
  have first : (links.filter (Link.meets link.label)).head? = links.find? (Link.meets link.label) := List.head?_filter
  rw [only_match links link apart member] at first
  rw [resolve, ← first]
  rfl

theorem digits_muted (s : Chars) (digits : ∀ c ∈ s, '0' ≤ c ∧ c ≤ '9') : Muted s := by
  have others : ∀ c ∈ ['\\', '[', ']'], ¬('0' ≤ c ∧ c ≤ '9') := by simp
  induction s with
  | nil => exact .nil
  | cons c s ih =>
      obtain ⟨own, later⟩ := List.forall_mem_cons.mp digits
      refine .plain c s (fun listed => others c listed own) (fun blank => ?_) (ih later)
      rw [Whitespace.solid_uncollapsible c (Text.digit_not_blank c own)] at blank
      cases blank

theorem candidate_readable (label : Chars) (n : Nat) (readable : Readable label) :
    Readable (Collector.candidate label n) := by
  unfold Collector.candidate
  split
  · exact readable
  · have number := digits_muted _ (Text.of_nat_digits (n + 1))
    refine ⟨muted_append _ _ readable.muted (.plain ' ' _ (by decide) (fun _ => rfl) number), ?_⟩
    simp

namespace Collector

-- All labels can be read between brackets.
structure Legible (c : Collector) : Prop where
  sound : c.Sound
  labels : ∀ link ∈ c.toList, Readable link.label

theorem new_legible : Legible {} where
  sound := ⟨rfl, List.nodup_nil, fun _ _ _ found => nomatch found⟩
  labels := fun _ member => nomatch member

theorem add_readable (c : Collector) (legible : c.Legible) (text url : Chars) (title : Option Chars)
    (readable : Readable text) : Readable (c.add text url title).1.label := by
  cases found : c.find? (candidate text (c.choose text url title)) with
  | some link =>
      simp only [add, found]
      exact legible.labels link (c.find_mem _ link found)
  | none =>
      simp only [add, found]
      split
      · exact candidate_readable text _ readable
      · exact candidate_readable text _ readable

theorem add_legible (c : Collector) (legible : c.Legible) (text url : Chars) (title : Option Chars)
    (readable : Readable text) : (c.add text url title).2.Legible := by
  have kept := c.add_keeps legible.sound text url title
  refine ⟨kept.sound, fun link member => ?_⟩
  rw [kept.stored] at member
  simp only [Call.link?, noted] at member
  split at member
  · exact legible.labels link member
  · rcases List.mem_append.mp member with old | new
    · exact legible.labels link old
    · obtain rfl := List.mem_singleton.mp new
      exact c.add_readable legible text url title readable

end Collector

theorem filed_none (c d : Collector) (cites : List Citation) (filed : Filed c cites d) (none : cites = []) : d = c := by
  cases filed with
  | none => rfl
  | next => exact absurd none (by simp)

theorem filed_kept (c d : Collector) (cites : List Citation) (filed : Filed c cites d) (legible : c.Legible)
    (texts : ∀ cited ∈ cites, Readable cited.text) :
    d.Legible ∧ ∀ cited ∈ cites, Readable cited.label ∧ cited.link ∈ d.toList := by
  induction filed with
  | none => exact ⟨legible, by simp⟩
  | next cites d cited _ label ih =>
      obtain ⟨earlier, own⟩ := List.forall_mem_append.mp texts
      have readable := own cited List.mem_cons_self
      obtain ⟨held, known⟩ := ih earlier
      have kept := d.add_keeps held.sound cited.text cited.url cited.title
      have prior := kept.grows.links
      refine ⟨d.add_legible held _ _ _ readable, List.forall_mem_append.mpr ⟨fun other member => ?_, ?_⟩⟩
      · obtain ⟨named, stored⟩ := known other member
        exact ⟨named, (prior.map Prod.snd).subset stored⟩
      · rintro _ (_ | ⟨_, ⟨⟩⟩)
        rw [label]
        refine ⟨d.add_readable held _ _ _ readable, ?_⟩
        rw [kept.stored, Citation.link, label]
        exact mem_noted _ _

theorem filed_resolve (c d : Collector) (cites : List Citation) (filed : Filed c cites d) (legible : c.Legible)
    (texts : ∀ cited ∈ cites, Readable cited.text) :
    (cites.map Citation.label).map (resolve d.toList) = (cites.map Citation.target).map some := by
  obtain ⟨held, known⟩ := filed_kept c d cites filed legible texts
  rw [List.map_map, List.map_map]
  refine List.map_congr_left fun cited member => ?_
  exact resolve_own d.toList cited.link held.sound.apart (known cited member).2

end Downmark.Reference
