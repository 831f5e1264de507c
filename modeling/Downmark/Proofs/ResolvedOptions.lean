import Downmark.Proofs.Lines
import Downmark.Proofs.Integers
import Downmark.Options.Resolve
/-!
Options from what people write. Whatever a value is, some choice stands in for it, with two exceptions: a text of
digits that cannot be read as a number, and a number with more digits than are ever written. Main statement: options
come out, each field with a choice of its own that its last value is resolved to, exactly when no key and no last
value of a field is one of the two.
-/

set_option autoImplicit false

namespace Downmark

namespace Text

/-- A text that looks like a position and is none: digits throughout, and one of them is no decimal digit or there are
more of them than are ever read. -/
def Misleading (s : Chars) : Prop :=
  (s ≠ [] ∧ ∀ c ∈ s, isDigit c = true) ∧ ((∃ c ∈ s, isDecimal c = false) ∨ maxIntegerDigits < s.length)

theorem digit_solid (c : Char) (digit : isDigit c = true) : isBlank c = false :=
  solid_class isDigit (by decide +kernel) c digit

theorem digits_unpadded (s : Chars) (digits : ∀ c ∈ s, isDigit c = true) : trim isPadding s = s := by
  have unpadded (t : Chars) (inner : ∀ c ∈ t, c ∈ s) : t.dropWhile isPadding = t := by
    refine drop_none isPadding t ((Option.any_eq_false ..).mpr ?_)
    intro c first
    have solid := digit_solid c (digits c (inner c (List.mem_of_head? first)))
    rw [isPadding, solid, Bool.false_and]
  rw [trim, trimStart, trimEnd, unpadded s (fun _ member => member),
    unpadded s.reverse (fun _ member => List.mem_reverse.mp member), List.reverse_reverse]

-- Without underscores every character is read on its own.
theorem digits_counted (s : Chars) (digits : ∀ c ∈ s, isDigit c = true) (nonempty : s ≠ []) :
    (digitValues? s).map List.length = if s.all isDecimal then some s.length else none := by
  fun_induction digitValues? s with
  | case1 => exact absurd rfl nonempty
  | case2 c => cases digit : decimal? c <;> simp [isDecimal, digit]
  | case3 c rest ih =>
      have underscore := digits '_' (by simp)
      cases underscore
  | case4 c rest some other ih =>
      rw [List.forall_mem_cons] at digits
      have later := ih digits.2 some
      rw [List.all_cons]
      cases digit : decimal? c with
      | none => simp [isDecimal, digit]
      | some d =>
          rw [show isDecimal c = true by rw [isDecimal, digit]; rfl, Bool.true_and]
          cases values : digitValues? rest with
          | none =>
              rw [values] at later
              simpa using later
          | some ds =>
              rw [values] at later
              split at later <;> simp_all

theorem misread_iff (s : Chars) (digits : ∀ c ∈ s, isDigit c = true) (nonempty : s ≠ []) :
    int? s = none ↔ Misleading s := by
  have unsigned : int? s = (nat? s).map Int.ofNat := by
    unfold int?
    rw [digits_unpadded s digits]
    split
    · cases digits '-' (by simp)
    · cases digits '+' (by simp)
    · rfl
  have counted := digits_counted s digits nonempty
  have decimal : s.all isDecimal = true ↔ ¬ ∃ c ∈ s, isDecimal c = false := by simp
  rw [unsigned, Option.map_eq_none_iff, nat?]
  cases values : digitValues? s with
  | none =>
      have mixed : ∃ c ∈ s, isDecimal c = false := by simpa [values] using counted
      exact iff_of_true rfl ⟨⟨nonempty, digits⟩, .inl mixed⟩
  | some ds =>
      rw [values, Option.map_some] at counted
      split at counted
      · rename_i all
        have length : ds.length = s.length := Option.some.inj counted
        constructor
        · intro unread
          refine ⟨⟨nonempty, digits⟩, .inr (Nat.lt_of_not_le fun few => ?_)⟩
          simp [length, few] at unread
        · rintro ⟨-, mixed | long⟩
          · exact absurd mixed (decimal.mp all)
          · simp [length, Nat.not_le.mpr long]
      · cases counted

end Text

namespace Choice

variable {α : Type} [Choice α] {v : Value}

theorem named_value {x : α} (named : ofValue? v = some x) : value x = v := by
  unfold ofValue? at named
  simpa using List.find?_some named

theorem named_listed {x : α} (named : ofValue? v = some x) : v ∈ values α :=
  named_value named ▸ List.mem_map_of_mem (List.mem_of_find?_eq_some named)

theorem listed_named (listed : v ∈ values α) : ∃ x : α, ofValue? v = some x := by
  obtain ⟨x, member, rfl⟩ := List.mem_map.mp listed
  exact Option.isSome_iff_exists.mp (List.find?_isSome.mpr ⟨x, member, beq_self_eq_true _⟩)

end Choice

namespace Options

theorem set_choice (o : Options) (field : Field) (v : Value) (choice : v ∈ field.choices) :
    ∃ fresh, o.set? field v = some fresh ∧ fresh.get field = v ∧ ∀ other ≠ field, fresh.get other = o.get other := by
  cases field
  all_goals
    obtain ⟨x, named⟩ := Choice.listed_named choice
    refine ⟨_, Option.map_eq_some_iff.mpr ⟨x, named, rfl⟩, Choice.named_value named, fun other differs => ?_⟩
    cases other <;> first | rfl | exact absurd rfl differs

theorem get_choice (o : Options) (field : Field) : o.get field ∈ field.choices := by
  have put := set_get o field
  cases field
  all_goals
    obtain ⟨x, named, -⟩ := Option.map_eq_some_iff.mp put
    exact Choice.named_listed named

/-- A value as a field looks at it: the field for yes and no first reads the words for them. -/
def seen (field : Field) (v : Value) : Value := if field = .preformattedCode then readBool v else v

/-- Values that nothing can stand in for. -/
inductive Refuses (field : Field) (v : Value) : Prop where
  | misread (s : String) (text : seen field v = .str s) (misleading : Text.Misleading (Text.strip s.toList))
  | endless (long : v.isEndless = true)

/-- The value that a field is given: the last one under a key that means the field. -/
def lastFor : RawOptions → Field → Option Value
  | [], _ => none
  | (key, v) :: rest, field =>
    (lastFor rest field).or (if Field.ofKey? (String.ofList key.text) = some field then some v else none)

/-- Options `o` with the choice that the value given for each field is resolved to, the field holding what it holds in
`start`. -/
structure Settled (start : Options) (given : Field → Option Value) (o fresh : Options) : Prop where
  kept : ∀ field, given field = none → fresh.get field = o.get field
  chosen : ∀ field v, given field = some v →
    ∃ before after, resolveValue field v (start.get field) before = .ok (fresh.get field) after

/-- Whether work succeeds after any log, with a result of this kind. -/
def Yields {α : Type} (work : Logged α) (good : α → Prop) : Prop :=
  ∀ log, ∃ a after, work log = .ok a after ∧ good a

/-- Whether work fails after any log. -/
def Breaks {α : Type} (work : Logged α) : Prop := ∀ log, ∃ failure after, work log = .error failure after

section

variable {α β : Type} {work : Logged α} {next : α → Logged β} {good : α → Prop} {fine : β → Prop}

theorem yields_note (event : Event) : Yields (note event) fun _ => True := fun _ => ⟨(), _, rfl, trivial⟩

theorem yields_bind (first : Yields work good) (later : ∀ a, good a → Yields (next a) fine) :
    Yields (work >>= next) fine := by
  intro log
  obtain ⟨a, between, worked, sound⟩ := first log
  obtain ⟨b, after, went, better⟩ := later a sound between
  refine ⟨b, after, ?_, better⟩
  change EStateM.bind work next log = _
  rw [EStateM.bind, worked, ← went]

theorem breaks_bind (first : Breaks work) : Breaks (work >>= next) := by
  intro log
  obtain ⟨failure, after, failed⟩ := first log
  refine ⟨failure, after, ?_⟩
  change EStateM.bind work next log = _
  rw [EStateM.bind, failed]

theorem breaks_later (first : Yields work good) (later : ∀ a, good a → Breaks (next a)) :
    Breaks (work >>= next) := by
  intro log
  obtain ⟨a, between, worked, sound⟩ := first log
  obtain ⟨failure, after, failed⟩ := later a sound between
  refine ⟨failure, after, ?_⟩
  change EStateM.bind work next log = _
  rw [EStateM.bind, worked, ← failed]

end

theorem choice_plain (field : Field) (v : Value) (choice : v ∈ field.choices) :
    position? v = .ok none ∧ v.isEndless = false := by
  cases field
  all_goals
    simp only [Field.choices, Choice.values, Choice.all, Choice.value, List.map_cons, List.map_nil, List.mem_cons,
      List.not_mem_nil, or_false] at choice
    rcases choice with rfl | rfl | rfl <;> exact ⟨rfl, rfl⟩

theorem position_fails_iff (v : Value) :
    (∃ failure, position? v = .error failure) ↔ ∃ s, v = .str s ∧ Text.Misleading (Text.strip s.toList) := by
  constructor
  · rintro ⟨failure, failed⟩
    unfold position? at failed
    split at failed
    · cases failed
    · rename_i s
      dsimp only at failed
      split at failed
      · cases failed
      · rename_i digits
        simp only [Bool.or_eq_true, List.isEmpty_iff, Bool.not_eq_true', not_or, Bool.not_eq_false,
          List.all_eq_true] at digits
        split at failed
        · cases failed
        · rename_i unread
          exact ⟨s, rfl, (Text.misread_iff _ digits.2 digits.1).mp unread⟩
    · cases failed
  · rintro ⟨s, rfl, misleading⟩
    have digits := misleading.1
    have unread := (Text.misread_iff _ digits.2 digits.1).mpr misleading
    refine ⟨.notANumber, ?_⟩
    have all : ¬ ((Text.strip s.toList).isEmpty || !(Text.strip s.toList).all Text.isDigit) = true := by
      simpa [digits.1] using digits.2
    simp only [position?, if_neg all, unread]

-- No choice is far down its list.
theorem choice_at (field : Field) (position : Int) (choice : Value)
    (found : choiceAt? field.choices position = some choice) :
    choice ∈ field.choices ∧ position.natAbs < 10 ^ Text.maxIntegerDigits := by
  unfold choiceAt? at found
  split at found
  · have few : field.choices.length ≤ 3 := by cases field <;> decide
    obtain ⟨near, rfl⟩ := List.getElem?_eq_some_iff.mp found
    have power : Text.maxIntegerDigits < 10 ^ Text.maxIntegerDigits := Nat.lt_pow_self (by decide)
    have digits : 3 < Text.maxIntegerDigits := by decide
    exact ⟨List.getElem_mem near, by omega⟩
  · cases found

theorem endless_position (v : Value) (position : Int) (endless : v.isEndless = true)
    (found : position? v = .ok (some position)) : v = .int position := by
  cases v with
  | scalar s =>
      cases s with
      | int n => cases found; rfl
      | _ => cases endless
  | list | dict => cases found

theorem seen_eq (field : Field) (v : Value) :
    (if field = .preformattedCode then readBool v else v) = seen field v := rfl

theorem seen_endless (field : Field) (v : Value) : (seen field v).isEndless = v.isEndless := by
  unfold seen
  split
  · unfold readBool
    split
    · dsimp only
      split
      · rfl
      · split <;> rfl
    · rfl
  · rfl

theorem value_resolved (field : Field) (v default : Value) (known : default ∈ field.choices)
    (readable : ¬ Refuses field v) : Yields (resolveValue field v default) (· ∈ field.choices) := by
  have short : (seen field v).isEndless = false := by
    rw [seen_endless, Bool.eq_false_iff]
    exact fun long => readable (.endless long)
  intro log
  unfold resolveValue
  dsimp only
  rw [seen_eq]
  cases named : field.choices.find? (· == seen field v) with
  | some choice => exact ⟨choice, log, rfl, List.mem_of_find?_eq_some named⟩
  | none =>
      dsimp only
      cases positioned : position? (seen field v) with
      | error failure =>
          obtain ⟨s, text, misleading⟩ := (position_fails_iff _).mp ⟨failure, positioned⟩
          exact absurd (.misread s text misleading) readable
      | ok position =>
          cases position with
          | some position =>
              dsimp only
              cases found : choiceAt? field.choices position with
              | some choice => exact ⟨choice, log, rfl, (choice_at field position choice found).1⟩
              | none =>
                  dsimp only
                  rw [short]
                  exact ⟨default, _, rfl, known⟩
          | none =>
              dsimp only
              rw [short]
              refine ⟨_, _, rfl, ?_⟩
              cases field <;> exact List.mem_cons_self

theorem refused_unlisted (field : Field) (v : Value) (refuses : Refuses field v) :
    field.choices.find? (· == seen field v) = none := by
  cases named : field.choices.find? (· == seen field v) with
  | none => rfl
  | some choice =>
      have same : choice = seen field v := by simpa using List.find?_some named
      obtain ⟨plain, short⟩ := choice_plain field _ (same ▸ List.mem_of_find?_eq_some named)
      cases refuses with
      | misread s text misleading =>
          obtain ⟨failure, failed⟩ := (position_fails_iff _).mpr ⟨s, text, misleading⟩
          cases plain.symm.trans failed
      | endless long => cases (seen_endless field v ▸ short).symm.trans long

theorem endless_no_choice (field : Field) (v : Value) (endless : v.isEndless = true) (position : Int)
    (found : position? v = .ok (some position)) : choiceAt? field.choices position = none := by
  cases chosen : choiceAt? field.choices position with
  | none => rfl
  | some choice =>
      have near := (choice_at field position choice chosen).2
      rw [endless_position v position endless found] at endless
      cases (short_number position near).symm.trans endless

theorem value_refused (field : Field) (v default : Value) (refuses : Refuses field v) :
    Breaks (resolveValue field v default) := by
  have unlisted := refused_unlisted field v refuses
  intro log
  unfold resolveValue
  dsimp only
  rw [seen_eq, unlisted]
  dsimp only
  cases refuses with
  | misread s text misleading =>
      obtain ⟨failure, failed⟩ := (position_fails_iff _).mpr ⟨s, text, misleading⟩
      exact ⟨failure, log, by rw [failed]; rfl⟩
  | endless long =>
      have endless := (seen_endless field v).trans long
      cases positioned : position? (seen field v) with
      | error failure => exact ⟨failure, log, rfl⟩
      | ok position =>
          refine ⟨.tooManyDigits, log, ?_⟩
          cases position with
          | some position =>
              dsimp only
              rw [endless_no_choice field _ endless position positioned, endless]
              rfl
          | none =>
              dsimp only
              rw [endless]
              rfl

theorem lookup_entry (f field : Field) (v : Value) (rest : List (Field × Value)) :
    ((f, v) :: rest).lookup field = if field = f then some v else rest.lookup field := by
  rw [List.lookup_cons]
  by_cases same : field = f
  · simp [same]
  · rw [beq_eq_false_iff_ne.mpr same, if_neg same]

theorem lookup_listed (given : List (Field × Value)) (apart : (given.map Prod.fst).Nodup) (field : Field)
    (v : Value) : given.lookup field = some v ↔ (field, v) ∈ given := by
  induction given with
  | nil => simp
  | cons entry rest ih =>
      obtain ⟨f, w⟩ := entry
      rw [List.map_cons, List.nodup_cons] at apart
      rw [lookup_entry, List.mem_cons, ← ih apart.2]
      split
      · rename_i same
        subst same
        have gone : rest.lookup field ≠ some v := fun found =>
          apart.1 (List.mem_map.mpr ⟨(field, v), (ih apart.2).mp found, rfl⟩)
        simp [gone, eq_comm]
      · rename_i differs
        simp [differs]

theorem put_lookup (f field : Field) (v : Value) (found : List (Field × Value)) :
    (putField f v found).lookup field = if field = f then some v else found.lookup field := by
  induction found with
  | nil => rw [putField, lookup_entry]
  | cons entry rest ih =>
      obtain ⟨g, w⟩ := entry
      unfold putField
      split
      · rename_i same
        rw [lookup_entry, lookup_entry, same]
        split <;> rfl
      · rename_i differs
        rw [lookup_entry, lookup_entry, ih]
        by_cases same : field = f
        · have other : field ≠ g := fun wrong => differs (wrong.symm.trans same)
          rw [if_neg other, if_pos same, if_pos same]
        · rw [if_neg same, if_neg same]

theorem put_fields (f : Field) (v : Value) (found : List (Field × Value)) :
    ∀ field ∈ (putField f v found).map Prod.fst, field = f ∨ field ∈ found.map Prod.fst := by
  induction found with
  | nil => simp [putField]
  | cons entry rest ih =>
      obtain ⟨g, w⟩ := entry
      unfold putField
      split
      · exact fun field member => .inr member
      · intro field member
        rcases List.mem_cons.mp member with rfl | later
        · exact .inr List.mem_cons_self
        · exact (ih field later).imp_right (List.mem_cons_of_mem g)

theorem put_nodup (field : Field) (v : Value) (found : List (Field × Value)) (apart : (found.map Prod.fst).Nodup) :
    ((putField field v found).map Prod.fst).Nodup := by
  induction found with
  | nil => simp [putField]
  | cons entry rest ih =>
      obtain ⟨f, w⟩ := entry
      rw [List.map_cons, List.nodup_cons] at apart
      unfold putField
      split
      · exact List.nodup_cons.mpr apart
      · rename_i differs
        refine List.nodup_cons.mpr ⟨fun member => ?_, ih apart.2⟩
        rcases put_fields field v rest f member with same | there
        · exact differs same
        · exact apart.1 there

theorem gathered (entries : RawOptions) (found : List (Field × Value)) (apart : (found.map Prod.fst).Nodup)
    (short : ∀ entry ∈ entries, entry.1.isEndless = false) :
    Yields (gather entries found) fun given => (given.map Prod.fst).Nodup ∧
      ∀ field, given.lookup field = (lastFor entries field).or (found.lookup field) := by
  induction entries generalizing found with
  | nil => exact fun log => ⟨found, log, rfl, apart, fun field => rfl⟩
  | cons entry rest ih =>
      obtain ⟨key, v⟩ := entry
      rw [List.forall_mem_cons] at short
      unfold gather
      rw [if_neg (Bool.eq_false_iff.mp short.1)]
      dsimp only
      cases means : Field.ofKey? (String.ofList key.text) with
      | none =>
          refine yields_bind (yields_note (.optionIgnored _)) fun _ _ => ?_
          have same : lastFor ((key, v) :: rest) = lastFor rest := by
            funext field
            simp [lastFor, means]
          rw [same]
          exact ih found apart short.2
      | some f =>
          dsimp only
          intro log
          obtain ⟨given, after, worked, distinct, looked⟩ := ih _ (put_nodup f v found apart) short.2 log
          refine ⟨given, after, worked, distinct, fun field => ?_⟩
          rw [looked, put_lookup, lastFor, means, Option.or_assoc]
          by_cases same : field = f
          · subst same
            simp
          · have other : f ≠ field := fun wrong => same wrong.symm
            simp [same, other]

theorem ungathered (entries : RawOptions) (found : List (Field × Value))
    (long : ∃ entry ∈ entries, entry.1.isEndless = true) : Breaks (gather entries found) := by
  induction entries generalizing found with
  | nil => simp at long
  | cons entry rest ih =>
      obtain ⟨key, v⟩ := entry
      unfold gather
      by_cases here : key.isEndless = true
      · rw [if_pos here]
        exact fun log => ⟨_, log, rfl⟩
      · rw [if_neg here]
        have later : ∃ entry ∈ rest, entry.1.isEndless = true := by simpa [here] using long
        dsimp only
        cases Field.ofKey? (String.ofList key.text) with
        | none => exact breaks_later (yields_note (.optionIgnored _)) fun _ _ => ih found later
        | some f => exact ih _ later

theorem settled (start : Options) (given : List (Field × Value)) (o : Options) (apart : (given.map Prod.fst).Nodup)
    (readable : ∀ entry ∈ given, ¬ Refuses entry.1 entry.2) :
    Yields (settle start given o) (Settled start (fun field => given.lookup field) o) := by
  induction given generalizing o with
  | nil => exact fun log => ⟨o, log, rfl, fun _ _ => rfl, fun _ _ given => nomatch given⟩
  | cons entry rest ih =>
      obtain ⟨f, v⟩ := entry
      rw [List.forall_mem_cons] at readable
      rw [List.map_cons, List.nodup_cons] at apart
      intro log
      obtain ⟨choice, between, resolved, listed⟩ :=
        value_resolved f v (start.get f) (get_choice start f) readable.1 log
      obtain ⟨fresh, taken, put, others⟩ := set_choice o f choice listed
      obtain ⟨done, after, went, kept, chosen⟩ := ih fresh apart.2 readable.2 between
      -- The fields are distinct, so what comes later leaves this one alone.
      have own : done.get f = choice := by
        rw [← put]
        refine kept f (List.lookup_eq_none_iff.mpr fun entry member => ?_)
        have differs : f ≠ entry.1 := fun same => apart.1 (List.mem_map.mpr ⟨entry, member, same.symm⟩)
        simpa using differs
      refine ⟨done, after, ?_, fun field ungiven => ?_, fun field w given => ?_⟩
      · unfold settle
        change EStateM.bind _ _ log = _
        rw [EStateM.bind, resolved]
        dsimp only
        rw [taken, ← went]
        rfl
      · rw [lookup_entry] at ungiven
        split at ungiven
        · cases ungiven
        · rename_i differs
          rw [kept field ungiven, others field differs]
      · rw [lookup_entry] at given
        split at given
        · rename_i same
          cases given
          exact ⟨log, between, by rw [same, own, resolved]⟩
        · exact chosen field w given

theorem unsettled (start : Options) (given : List (Field × Value)) (o : Options)
    (refuses : ∃ entry ∈ given, Refuses entry.1 entry.2) : Breaks (settle start given o) := by
  induction given generalizing o with
  | nil => simp at refuses
  | cons entry rest ih =>
      obtain ⟨f, v⟩ := entry
      unfold settle
      by_cases here : Refuses f v
      · exact breaks_bind (value_refused f v _ here)
      · have later : ∃ entry ∈ rest, Refuses entry.1 entry.2 := by simpa [here] using refuses
        exact breaks_later (value_resolved f v _ (get_choice start f) here) fun _ _ => ih _ later

/-- Whether something can be made of every key and of the last value of every field. -/
def Readable (entries : RawOptions) : Prop :=
  (∀ entry ∈ entries, entry.1.isEndless = false) ∧ ∀ field v, lastFor entries field = some v → ¬ Refuses field v

theorem resolved (start : Options) (raw overrides : RawOptions) (readable : Readable (raw ++ overrides)) :
    Yields (resolve start raw overrides) (Settled start (lastFor (raw ++ overrides)) start) := by
  refine yields_bind (gathered (raw ++ overrides) [] List.nodup_nil readable.1) fun given ⟨apart, looked⟩ => ?_
  have same : lastFor (raw ++ overrides) = fun field => given.lookup field := by
    funext field
    rw [looked, List.lookup_nil, Option.or_none]
  rw [same]
  refine settled start given start apart fun entry member => readable.2 entry.1 entry.2 ?_
  rw [same]
  exact (lookup_listed given apart entry.1 entry.2).mpr member

theorem unresolved (start : Options) (raw overrides : RawOptions) (unreadable : ¬ Readable (raw ++ overrides)) :
    Breaks (resolve start raw overrides) := by
  by_cases short : ∀ entry ∈ raw ++ overrides, entry.1.isEndless = false
  · refine breaks_later (gathered (raw ++ overrides) [] List.nodup_nil short) fun given ⟨apart, looked⟩ => ?_
    obtain ⟨field, v, last, refuses⟩ :
        ∃ field v, lastFor (raw ++ overrides) field = some v ∧ Refuses field v := by
      by_contra none
      refine unreadable ⟨short, fun field v last refuses => none ⟨field, v, last, refuses⟩⟩
    have found : given.lookup field = some v := by rw [looked, List.lookup_nil, Option.or_none, last]
    exact unsettled start given start ⟨(field, v), (lookup_listed given apart field v).mp found, refuses⟩
  · exact breaks_bind (ungathered (raw ++ overrides) [] (by simpa using short))

theorem resolve_ok_iff_readable (start : Options) (raw overrides : RawOptions) (log : Log) :
    (∃ o after, resolve start raw overrides log = .ok o after ∧ (∀ field, o.get field ∈ field.choices) ∧
      Settled start (lastFor (raw ++ overrides)) start o) ↔ Readable (raw ++ overrides) := by
  constructor
  · rintro ⟨o, after, worked, -⟩
    by_contra unreadable
    obtain ⟨failure, other, failed⟩ := unresolved start raw overrides unreadable log
    cases worked.symm.trans failed
  · intro readable
    obtain ⟨o, after, worked, settled⟩ := resolved start raw overrides readable log
    exact ⟨o, after, worked, get_choice o, settled⟩

-- A superscript is a digit, and no decimal one.
theorem superscript_refused : resolve {} [(.str "hr", .str "²")] [] [] = .error .notANumber [] := by rfl

theorem not_always_resolved : ¬ ∀ (start : Options) (raw overrides : RawOptions) (log : Log),
    ∃ o after, resolve start raw overrides log = .ok o after ∧ ∀ field, o.get field ∈ field.choices := by
  intro always
  obtain ⟨o, after, worked, -⟩ := always {} [(.str "hr", .str "²")] [] []
  cases worked.symm.trans superscript_refused

end Options

end Downmark
