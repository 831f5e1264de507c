import Mathlib.Data.List.Nodup
import Mathlib.Data.List.TakeWhile
import Downmark.Plugin.Registry
/-!
What a registry answers after any calls. A call that writes a name binds it or frees it, and the first look-up of all
does the discovery, which registers the bundled plugins once more. Main statement: what a name leads to is what the
last write of it said, unless that was before the first look-up and the name is that of a bundled plugin.
-/

set_option autoImplicit false

namespace Downmark

theorem put_entry_lookup {α : Type} (key other : String) (value : α) (entries : List (String × α)) :
    (putEntry key value entries).lookup other = if other = key then some value else entries.lookup other := by
  unfold putEntry
  induction entries with
  | nil =>
      by_cases same : other = key
      · simp [putEntryBy, same]
      · simp [putEntryBy, List.lookup_cons, same, beq_false_of_ne same]
  | cons entry rest ih =>
      obtain ⟨k, v⟩ := entry
      by_cases found : k = key
      · subst found
        by_cases same : other = k
        · simp [putEntryBy, same]
        · simp [putEntryBy, List.lookup_cons, same, beq_false_of_ne same]
      · by_cases here : other = k
        · subst here
          simp [putEntryBy, found]
        · simp [putEntryBy, found, List.lookup_cons, beq_false_of_ne here, ih]

theorem lookup_without {α : Type} (key other : String) (entries : List (String × α)) :
    (entries.filter fun entry => entry.1 != key).lookup other =
      if other = key then none else entries.lookup other := by
  induction entries with
  | nil => simp
  | cons entry rest ih =>
      obtain ⟨k, v⟩ := entry
      by_cases gone : k = key
      · subst gone
        rw [List.filter_cons_of_neg (by simp), ih]
        by_cases same : other = k
        · rw [if_pos same, if_pos same]
        · simp [same, List.lookup_cons, beq_false_of_ne same]
      · by_cases here : other = k
        · subst here
          simp [gone]
        · simp [gone, List.lookup_cons, beq_false_of_ne here, ih]

namespace Registry

/-- A call of the registry. There is one of each bundled plugin. -/
inductive Call where
  | register (p : Plugin) (single : p.isBundled = true → p ∈ Gfm.bundled)
  | unregister (name : String)
  | get (name : String)
  | has (name : String)
  | list (tags : Option (List String))

namespace Call

def looksUp : Call → Bool
  | .register .. | .unregister _ => false
  | .get _ | .has _ | .list _ => true

/-- What a call leaves of the registry. Looking up does the discovery if it has not been done yet. -/
def run (r : Registry) : Call → Registry
  | .register p _ => (r.register p).1
  | .unregister name => (r.unregister name).2.1
  | .get _ | .has _ | .list _ => r.discoverOnce.1

/-- What a call writes for a name: a plugin that it binds the name to, or that there is none. -/
def writes (name : String) : Call → Option (Option Plugin)
  | .register p _ => if p.name = name then some (some p) else none
  | .unregister other => if other = name then some none else none
  | .get _ | .has _ | .list _ => none

theorem look_up_writes (call : Call) (looks : call.looksUp = true) (name : String) : call.writes name = none := by
  cases call with
  | register | unregister => cases looks
  | get | has | list => rfl

end Call

/-- What the last write of a name says, if some call writes it. -/
def lastWrite (name : String) (calls : List Call) : Option (Option Plugin) :=
  (calls.filterMap (Call.writes name)).getLast?

/-- The bundled plugin of a name. -/
def bundled? (name : String) : Option Plugin := Gfm.bundled.find? fun p => p.name == name

/-- The plugin that callers bound a name to, starting from the bundled plugins. -/
def latest (name : String) (calls : List Call) : Option Plugin := (lastWrite name calls).getD (bundled? name)

/-- The calls from the first look-up on. -/
def sinceLookUp (calls : List Call) : List Call := calls.dropWhile fun call => !call.looksUp

/-- What some calls lead to, starting from the bundled plugins. -/
def after (calls : List Call) : Registry := calls.foldl Call.run initial

/-- Whether the registry answers as one in which a name is bound so. -/
def Answers (r : Registry) (name : String) (bound : Option Plugin) : Prop :=
  r.has name = bound.isSome ∧ r.get name = match bound with
    | some p => .ok p
    | none => .error (.unknownPlugin name r.names)

theorem answers_iff (r : Registry) (name : String) (bound : Option Plugin) :
    r.Answers name bound ↔ r.plugins.lookup name = bound := by
  unfold Answers has get
  cases r.plugins.lookup name <;> cases bound <;> simp

theorem last_write_append (name : String) (before since : List Call) :
    lastWrite name (before ++ since) = (lastWrite name since).or (lastWrite name before) := by
  rw [lastWrite, List.filterMap_append, List.getLast?_append]
  rfl

theorem last_write_cons (name : String) (call : Call) (rest : List Call) :
    lastWrite name (call :: rest) = (lastWrite name rest).or (call.writes name) := by
  rw [← List.singleton_append, last_write_append]
  congr 1
  rw [lastWrite]
  cases written : call.writes name <;> simp [written]

theorem last_write_none_iff (name : String) (calls : List Call) :
    lastWrite name calls = none ↔ ∀ call ∈ calls, call.writes name = none := by
  rw [lastWrite, List.getLast?_eq_none_iff, List.filterMap_eq_nil_iff]

theorem bundled_named (a b : Plugin) (first : a ∈ Gfm.bundled) (second : b ∈ Gfm.bundled) (same : a.name = b.name) :
    a = b := by
  have distinct : (Gfm.bundled.map Plugin.name).Nodup := by decide
  exact List.inj_on_of_nodup_map distinct first second same

theorem bundled_iff (name : String) (p : Plugin) : bundled? name = some p ↔ p ∈ Gfm.bundled ∧ p.name = name := by
  constructor
  · intro found
    exact ⟨List.mem_of_find?_eq_some found, by simpa using List.find?_some found⟩
  · rintro ⟨member, rfl⟩
    obtain ⟨q, found⟩ := Option.isSome_iff_exists.mp
      (List.find?_isSome (p := fun q => q.name == p.name).mpr ⟨p, member, beq_self_eq_true _⟩)
    have named : q.name = p.name := by simpa using List.find?_some found
    rw [bundled?, found, bundled_named q p (List.mem_of_find?_eq_some found) member named]

/-- Registered plugins that are taken for bundled ones are bundled ones, and so are those that are discovered. -/
structure Sound (r : Registry) : Prop where
  single : ∀ name p, r.plugins.lookup name = some p → p.isBundled = true → p ∈ Gfm.bundled
  entryPoints : r.entryPoints = .bundled

section

variable (r : Registry) (sound : r.Sound)

include sound

-- One that is left alone as it is there already is the same one.
theorem register_lookup (p : Plugin) (single : p.isBundled = true → p ∈ Gfm.bundled) (name : String) :
    (r.register p).1.plugins.lookup name = if name = p.name then some p else r.plugins.lookup name := by
  unfold register
  cases found : r.plugins.lookup p.name with
  | none => exact put_entry_lookup p.name name p r.plugins
  | some existing =>
      by_cases same : existing.isSame p = true
      · simp only [same, if_true]
        have known : (existing.isBundled = true ∧ p.isBundled = true) ∧ existing.name = p.name := by
          simpa [Plugin.isSame] using same
        obtain rfl := bundled_named existing p (sound.single _ _ found known.1.1) (single known.1.2) known.2
        by_cases named : name = existing.name
        · rw [if_pos named, named, found]
        · rw [if_neg named]
      · simp only [same]
        exact put_entry_lookup p.name name p r.plugins

theorem register_sound (p : Plugin) (single : p.isBundled = true → p ∈ Gfm.bundled) : (r.register p).1.Sound := by
  constructor
  · intro name q found
    rw [register_lookup r sound p single] at found
    by_cases named : name = p.name
    · rw [if_pos named] at found
      obtain rfl := Option.some.inj found
      exact single
    · rw [if_neg named] at found
      exact sound.single name q found
  · rw [← sound.entryPoints, register]
    split
    · split <;> rfl
    · rfl

omit sound in
theorem unregister_lookup (gone name : String) :
    (r.unregister gone).2.1.plugins.lookup name = if name = gone then none else r.plugins.lookup name := by
  unfold unregister
  cases found : r.plugins.lookup gone with
  | none =>
      by_cases named : name = gone
      · simp [named, found]
      · simp [named]
  | some p => simpa using lookup_without gone name r.plugins

theorem unregister_sound (gone : String) : (r.unregister gone).2.1.Sound := by
  constructor
  · intro name p found
    rw [unregister_lookup r] at found
    by_cases named : name = gone
    · simp [named] at found
    · rw [if_neg named] at found
      exact sound.single name p found
  · rw [← sound.entryPoints, unregister]
    split <;> rfl

end

/-- The entry point that gives a plugin. -/
def entryOf (p : Plugin) : EntryPoint := { name := p.name, group := EntryPoints.pluginGroup, load := .plugin p }

theorem load_registers (ps : List Plugin) (r : Registry) :
    (loadAll (ps.map entryOf) r).2.1 = (registerAll ps r).1 := by
  induction ps generalizing r with
  | nil => rfl
  | cons p rest ih =>
      rw [List.map_cons, loadAll, registerAll]
      exact ih (r.register p).1

theorem register_initialized (r : Registry) (p : Plugin) : (r.register p).1.isInitialized = r.isInitialized := by
  unfold register
  split
  · split <;> rfl
  · rfl

theorem register_all_sound (ps : List Plugin) (known : ∀ p ∈ ps, p ∈ Gfm.bundled) (r : Registry) (sound : r.Sound) :
    (registerAll ps r).1.Sound ∧ (registerAll ps r).1.isInitialized = r.isInitialized ∧
      ∀ name, (registerAll ps r).1.plugins.lookup name =
        (ps.find? fun p => p.name == name).or (r.plugins.lookup name) := by
  induction ps generalizing r with
  | nil => exact ⟨sound, rfl, fun name => rfl⟩
  | cons p rest ih =>
      rw [List.forall_mem_cons] at known
      have single : p.isBundled = true → p ∈ Gfm.bundled := fun _ => known.1
      obtain ⟨later, same, lookups⟩ := ih known.2 _ (register_sound r sound p single)
      refine ⟨later, same.trans (register_initialized r p), fun name => ?_⟩
      rw [registerAll]
      change (registerAll rest (r.register p).1).1.plugins.lookup name = _
      rw [lookups name, register_lookup r sound p single]
      by_cases named : p.name = name
      · -- A later one of the same name is the same one.
        rw [if_pos named.symm, List.find?_cons_of_pos (by simp [named])]
        cases again : rest.find? fun p => p.name == name with
        | none => rfl
        | some q =>
            have same : q.name = name := by simpa using List.find?_some again
            rw [bundled_named q p (known.2 q (List.mem_of_find?_eq_some again)) known.1 (same.trans named.symm)]
            rfl
      · rw [if_neg (Ne.symm named), List.find?_cons_of_neg (by simpa using named)]

theorem initial_sound : initial.Sound ∧ initial.isInitialized = false ∧
    ∀ name, initial.plugins.lookup name = bundled? name := by
  have empty : ({} : Registry).Sound := ⟨nofun, rfl⟩
  obtain ⟨sound, fresh, lookups⟩ := register_all_sound Gfm.bundled (fun _ member => member) {} empty
  exact ⟨sound, fresh, fun name => (lookups name).trans Option.or_none⟩

theorem discover_sound (r : Registry) (sound : r.Sound) :
    r.discover.2.1.Sound ∧ r.discover.2.1.isInitialized = r.isInitialized ∧
      ∀ name, r.discover.2.1.plugins.lookup name = (bundled? name).or (r.plugins.lookup name) := by
  let sorted := Gfm.bundled.mergeSort fun a b => !(b.name < a.name)
  have known : ∀ p ∈ sorted, p ∈ Gfm.bundled := fun p member => List.mem_mergeSort.mp member
  have loaded : r.discover.2.1 = (registerAll sorted r).1 := by
    have own : (sorted.map entryOf).filter (fun entry => entry.group == EntryPoints.pluginGroup) =
        sorted.map entryOf := List.filter_eq_self.mpr fun entry member => by
      obtain ⟨p, -, rfl⟩ := List.mem_map.mp member
      exact beq_self_eq_true _
    rw [← load_registers, ← own, discover, sound.entryPoints]
    rfl
  obtain ⟨later, same, lookups⟩ := register_all_sound sorted known r sound
  rw [loaded]
  refine ⟨later, same, fun name => ?_⟩
  rw [lookups name]
  congr 1
  cases found : bundled? name with
  | none =>
      refine List.find?_eq_none.mpr fun p member => ?_
      exact List.find?_eq_none.mp found p (known p member)
  | some p =>
      obtain ⟨member, named⟩ := (bundled_iff name p).mp found
      obtain ⟨q, again⟩ := Option.isSome_iff_exists.mp
        (List.find?_isSome (p := fun q => q.name == name).mpr ⟨p, List.mem_mergeSort.mpr member, by simpa using named⟩)
      have same : q.name = name := by simpa using List.find?_some again
      rw [again, bundled_named q p (known q (List.mem_of_find?_eq_some again)) member (same.trans named.symm)]

/-- Whether some calls cannot do the discovery any more, or do not do it. -/
def Settled (r : Registry) (calls : List Call) : Prop :=
  r.isInitialized = true ∨ ∀ call ∈ calls, call.looksUp = false

theorem run_settled (call : Call) (r : Registry) (sound : r.Sound) (rest : List Call)
    (settled : r.Settled (call :: rest)) : (call.run r).Sound ∧ (call.run r).Settled rest ∧
      (call.run r).isInitialized = r.isInitialized ∧
      ∀ name, (call.run r).plugins.lookup name = (call.writes name).getD (r.plugins.lookup name) := by
  have later (after : Registry) (same : after.isInitialized = r.isInitialized) : after.Settled rest :=
    settled.imp same.trans fun none => (List.forall_mem_cons.mp none).2
  have looks (looks : call.looksUp = true) : r.discoverOnce.1 = r := by
    rcases settled with done | none
    · rw [discoverOnce, if_pos done]
    · cases (none call List.mem_cons_self).symm.trans looks
  cases call with
  | register p single =>
      have same := register_initialized r p
      refine ⟨register_sound r sound p single, later _ same, same, fun name => ?_⟩
      rw [Call.run, register_lookup r sound p single, Call.writes]
      by_cases named : name = p.name
      · simp [named]
      · rw [if_neg named, if_neg (Ne.symm named)]
        rfl
  | unregister gone =>
      have same : (r.unregister gone).2.1.isInitialized = r.isInitialized := by
        unfold unregister
        split <;> rfl
      refine ⟨unregister_sound r sound gone, later _ same, same, fun name => ?_⟩
      rw [Call.run, unregister_lookup r, Call.writes]
      by_cases named : name = gone
      · simp [named]
      · rw [if_neg named, if_neg (Ne.symm named)]
        rfl
  | get | has | list =>
      rw [Call.run, looks rfl]
      exact ⟨sound, later r rfl, rfl, fun name => rfl⟩

/-- Without a discovery the registry is the map that the calls write. -/
theorem calls_settled (calls : List Call) (r : Registry) (sound : r.Sound) (settled : r.Settled calls) :
    (calls.foldl Call.run r).Sound ∧ (calls.foldl Call.run r).isInitialized = r.isInitialized ∧
      ∀ name, (calls.foldl Call.run r).plugins.lookup name = (lastWrite name calls).getD (r.plugins.lookup name) := by
  induction calls generalizing r with
  | nil => exact ⟨sound, rfl, fun name => rfl⟩
  | cons call rest ih =>
      obtain ⟨kept, remains, same, step⟩ := run_settled call r sound rest settled
      obtain ⟨last, unchanged, lookups⟩ := ih _ kept remains
      refine ⟨last, unchanged.trans same, fun name => ?_⟩
      rw [List.foldl_cons, lookups name, step name, last_write_cons]
      cases lastWrite name rest <;> rfl

/-- What a name is bound to once the discovery is done. -/
theorem after_lookup (calls : List Call) (name : String) :
    (after calls).discoverOnce.1.plugins.lookup name =
      (lastWrite name (sinceLookUp calls)).getD ((bundled? name).or (latest name calls)) := by
  obtain ⟨before, parts, silent⟩ : ∃ before, calls = before ++ sinceLookUp calls ∧
      ∀ call ∈ before, call.looksUp = false :=
    ⟨calls.takeWhile fun call => !call.looksUp, (List.takeWhile_append_dropWhile ..).symm, fun (call : Call) member => by
      have first : (!call.looksUp) = true := List.mem_takeWhile_imp (p := fun call : Call => !call.looksUp) member
      simpa using first⟩
  obtain ⟨sound, fresh, bundled⟩ := initial_sound
  obtain ⟨kept, unchanged, written⟩ := calls_settled before initial sound (.inr silent)
  generalize reached : before.foldl Call.run initial = r at kept unchanged written
  -- The discovery finds what the calls before it have written.
  have once : r.discoverOnce.1 = ({ r with isInitialized := true } : Registry).discover.2.1 := by
    rw [discoverOnce, unchanged, fresh]
    rfl
  obtain ⟨found, done, discovered⟩ := discover_sound { r with isInitialized := true } ⟨kept.single, kept.entryPoints⟩
  rw [← once] at found done discovered
  have lookups : r.discoverOnce.1.plugins.lookup name =
      (bundled? name).or ((lastWrite name before).getD (bundled? name)) := by
    rw [discovered, ← bundled name, ← written name]
  rw [latest, after, parts, List.foldl_append, reached, ← parts]
  have whole := last_write_append name before (sinceLookUp calls)
  rw [← parts] at whole
  rw [whole]
  cases since : sinceLookUp calls with
  | nil => exact lookups
  | cons call rest =>
      have looks : call.looksUp = true := by
        have first := List.head?_dropWhile_not (fun call : Call => !call.looksUp) calls
        rw [show calls.dropWhile _ = sinceLookUp calls from rfl, since] at first
        simpa using first
      have asked : call.run r = r.discoverOnce.1 := by
        cases call with
        | register | unregister => cases looks
        | get | has | list => rfl
      obtain ⟨-, last, later⟩ := calls_settled rest r.discoverOnce.1 found (.inl done)
      rw [List.foldl_cons, asked, discoverOnce, if_pos (last.trans done), later name, lookups, last_write_cons,
        call.look_up_writes looks, Option.or_none]
      cases lastWrite name rest <;> rfl

theorem latest_since (calls : List Call) (name : String) (bound : Option Plugin)
    (written : lastWrite name (sinceLookUp calls) = some bound) : latest name calls = bound := by
  have parts : calls.takeWhile (fun call => !call.looksUp) ++ sinceLookUp calls = calls :=
    List.takeWhile_append_dropWhile ..
  have whole := last_write_append name (calls.takeWhile fun call => !call.looksUp) (sinceLookUp calls)
  rw [parts, written, Option.some_or] at whole
  rw [latest, whole, Option.getD_some]

/-- A name is answered as its last write says, but for the one of a bundled plugin that was written before the first
look-up only: that one leads to the bundled plugin. -/
theorem answers_latest_iff (calls : List Call) (name : String) :
    ((after calls).discoverOnce.1.Answers name (latest name calls) ↔ ∀ p ∈ Gfm.bundled, p.name = name →
      (∃ call ∈ sinceLookUp calls, call.writes name ≠ none) ∨ latest name calls = some p) ∧
    ∀ p ∈ Gfm.bundled, p.name = name → (∀ call ∈ sinceLookUp calls, call.writes name = none) →
      (after calls).discoverOnce.1.Answers name (some p) := by
  have unwritten := last_write_none_iff name (sinceLookUp calls)
  have kept (p : Plugin) (member : p ∈ Gfm.bundled) (named : p.name = name)
      (silent : ∀ call ∈ sinceLookUp calls, call.writes name = none) :
      (after calls).discoverOnce.1.plugins.lookup name = some p := by
    rw [after_lookup, unwritten.mpr silent, (bundled_iff name p).mpr ⟨member, named⟩]
    rfl
  simp only [answers_iff]
  refine ⟨⟨?last, ?answered⟩, kept⟩
  case last =>
    intro answers p member named
    by_cases silent : ∀ call ∈ sinceLookUp calls, call.writes name = none
    · exact .inr (answers.symm.trans (kept p member named silent))
    · push Not at silent
      exact .inl silent
  case answered =>
    intro good
    rw [after_lookup]
    cases written : lastWrite name (sinceLookUp calls) with
    | some bound => exact (latest_since calls name bound written).symm
    | none =>
        cases found : bundled? name with
        | none => rfl
        | some p =>
            obtain ⟨member, named⟩ := (bundled_iff name p).mp found
            obtain ⟨call, since, writes⟩ | same := good p member named
            · exact absurd (unwritten.mp written call since) writes
            · exact same.symm

theorem answers_latest_gfm :
    (after [.has "gfm", .unregister "gfm"]).discoverOnce.1.Answers "gfm" none ∧
    ∃ p ∈ Gfm.bundled, (after [.unregister "gfm", .has "gfm"]).discoverOnce.1.Answers "gfm" (some p) := by
  constructor
  · refine (answers_latest_iff [.has "gfm", .unregister "gfm"] "gfm").1.mpr fun p member named => .inl ?_
    exact ⟨.unregister "gfm", by simp [sinceLookUp, Call.looksUp], by decide⟩
  · obtain ⟨p, member, named⟩ : ∃ p ∈ Gfm.bundled, p.name = "gfm" := ⟨_, List.mem_cons_self, rfl⟩
    exact ⟨p, member, (answers_latest_iff [.unregister "gfm", .has "gfm"] "gfm").2 p member named (by decide)⟩

theorem latest_forgotten : ¬ ∀ (calls : List Call) (name : String),
    (after calls).discoverOnce.1.Answers name (latest name calls) := by
  intro claimed
  have gone := (answers_iff _ _ _).mp (claimed [.unregister "gfm", .has "gfm"] "gfm")
  rw [after_lookup] at gone
  exact absurd (congrArg Option.isSome gone) (by decide)

end Registry

end Downmark
