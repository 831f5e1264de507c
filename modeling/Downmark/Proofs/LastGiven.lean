import Mathlib.Logic.Relation
import Downmark.Proofs.ResolvedOptions
/-!
What a field comes to hold is told by the last value that is given for it, whatever else is given, and however the keys
are spelled. Main statement: entries of different fields may change places and keys may be spelled otherwise without
any change to the options, and options that are written out field by field are read back as the same options.
-/

set_option autoImplicit false

namespace Downmark.Options

/-- The field that the key of an entry means. -/
def fieldOf (key : Scalar) : Option Field := Field.ofKey? (String.ofList key.text)

/-- The values given for a field, in order. -/
def givenFor (entries : RawOptions) (field : Field) : List Value :=
  entries.filterMap fun entry => if fieldOf entry.1 = some field then some entry.2 else none

/-- Entries written otherwise: two neighbours that do not mean the same field change places, or a key is spelled
otherwise. -/
inductive Rewritten : RawOptions → RawOptions → Prop where
  | swapped (before after : RawOptions) (a b : Scalar × Value)
      (apart : ∀ field, fieldOf a.1 = some field → fieldOf b.1 ≠ some field) :
      Rewritten (before ++ a :: b :: after) (before ++ b :: a :: after)
  | respelled (before after : RawOptions) (key other : Scalar) (v : Value) (same : fieldOf other = fieldOf key)
      (short : other.isEndless = false) :
      Rewritten (before ++ (key, v) :: after) (before ++ (other, v) :: after)

/-- Options as somebody would write them, each field under its own name. -/
def entries (o : Options) : RawOptions := o.toPairs.map fun pair => (.str pair.1, pair.2)

theorem given_cons (key : Scalar) (v : Value) (rest : RawOptions) (field : Field) :
    givenFor ((key, v) :: rest) field =
      (if fieldOf key = some field then [v] else []) ++ givenFor rest field := by
  unfold givenFor
  rw [List.filterMap_cons]
  split <;> simp_all

theorem given_append (a b : RawOptions) (field : Field) :
    givenFor (a ++ b) field = givenFor a field ++ givenFor b field := List.filterMap_append

theorem last_given (given : RawOptions) (field : Field) : lastFor given field = (givenFor given field).getLast? := by
  induction given with
  | nil => rfl
  | cons entry rest ih =>
      obtain ⟨key, v⟩ := entry
      rw [lastFor, ih, given_cons, List.getLast?_append, fieldOf]
      split <;> rfl

theorem rewritten_given (a b : RawOptions) (rewritten : Rewritten a b) (field : Field) :
    givenFor b field = givenFor a field := by
  cases rewritten with
  | swapped before after x y apart =>
      obtain ⟨key, v⟩ := x
      obtain ⟨other, w⟩ := y
      simp only [given_append, given_cons]
      by_cases means : fieldOf key = some field
      · simp [means, apart field means]
      · simp [means]
  | respelled before after key other v same => simp only [given_append, given_cons, same]

theorem rewritten_short (a b : RawOptions) (rewritten : Rewritten a b)
    (short : ∀ entry ∈ a, entry.1.isEndless = false) : ∀ entry ∈ b, entry.1.isEndless = false := by
  cases rewritten with
  | swapped before after x y => exact fun entry member => short entry (by simpa [or_left_comm] using member)
  | respelled before after key other v _ fine =>
      intro entry member
      rcases List.mem_append.mp member with front | back
      · exact short entry (List.mem_append_left _ front)
      · rcases List.mem_cons.mp back with rfl | later
        · exact fine
        · exact short entry (List.mem_append_right _ (List.mem_cons_of_mem _ later))

theorem rewritings_kept (a b : RawOptions) (rewritten : Relation.ReflTransGen Rewritten a b) :
    (∀ field, givenFor b field = givenFor a field) ∧
      ((∀ entry ∈ a, entry.1.isEndless = false) → ∀ entry ∈ b, entry.1.isEndless = false) := by
  induction rewritten with
  | refl => exact ⟨fun _ => rfl, id⟩
  | tail _ step ih =>
      exact ⟨fun field => (rewritten_given _ _ step field).trans (ih.1 field),
        fun short => rewritten_short _ _ step (ih.2 short)⟩

theorem choice_found (field : Field) (v : Value) (choice : v ∈ field.choices) :
    field.choices.find? (· == v) = some v := by
  cases named : field.choices.find? (· == v) with
  | none => exact absurd (List.find?_eq_none.mp named v choice) (by simp)
  | some found =>
      have same : found = v := by simpa using List.find?_some named
      rw [same]

theorem choice_seen (field : Field) (v : Value) (choice : v ∈ field.choices) : seen field v = v := by
  unfold seen
  split
  · rename_i same
    subst same
    obtain ⟨b, -, rfl⟩ := List.mem_map.mp choice
    rfl
  · rfl

theorem choice_resolved (field : Field) (v default : Value) (choice : v ∈ field.choices) (log : Log) :
    resolveValue field v default log = .ok v log := by
  unfold resolveValue
  dsimp only
  rw [seen_eq, choice_seen field v choice, choice_found field v choice]
  rfl

/-- Whether the result of some work does not depend on what is in the log. -/
def Oblivious {α : Type} (work : Logged α) : Prop :=
  ∀ a before after log, work before = .ok a after → ∃ later, work log = .ok a later

theorem oblivious_pure {α : Type} (a : α) : Oblivious (pure a : Logged α) := by
  rintro b before after log ⟨⟩
  exact ⟨log, rfl⟩

theorem oblivious_throw {α : Type} (failure : Failure) : Oblivious (throw failure : Logged α) := by
  rintro b before after log ⟨⟩

theorem oblivious_note {α : Type} (event : Event) (a : α) : Oblivious (do note event; pure a) := by
  rintro b before after log ⟨⟩
  exact ⟨_, rfl⟩

theorem value_oblivious (field : Field) (v default : Value) : Oblivious (resolveValue field v default) := by
  unfold resolveValue
  dsimp only
  rw [seen_eq]
  split
  · exact oblivious_pure _
  · split
    · exact oblivious_throw _
    · split
      · exact oblivious_pure _
      · split
        · exact oblivious_throw _
        · exact oblivious_note _ _
    · split
      · exact oblivious_throw _
      · exact oblivious_note _ _

theorem choice_injective {α : Type} [Choice α] (named : ∀ x : α, Choice.ofValue? (Choice.value x) = some x)
    (x y : α) (same : Choice.value x = Choice.value y) : x = y := by
  have both := named x
  rw [same, named y] at both
  exact (Option.some.inj both).symm

theorem fields_determine (o p : Options) (same : ∀ field, o.get field = p.get field) : o = p := by
  obtain ⟨a, b, c, d, e, f, g, h, i, j, k⟩ := o
  obtain ⟨a', b', c', d', e', f', g', h', i', j', k'⟩ := p
  rw [Options.mk.injEq]
  refine ⟨choice_injective ?_ a a' (same .headingStyle), choice_injective ?_ b b' (same .thematicBreak),
    choice_injective ?_ c c' (same .bulletMarker), choice_injective ?_ d d' (same .codeBlockStyle),
    choice_injective ?_ e e' (same .fence), choice_injective ?_ f f' (same .emDelimiter),
    choice_injective ?_ g g' (same .strongDelimiter), choice_injective ?_ h h' (same .linkStyle),
    choice_injective ?_ i i' (same .labelStyle), choice_injective ?_ j j' (same .preformattedCode),
    choice_injective ?_ k k' (same .lineBreak)⟩
  all_goals rintro ⟨⟩ <;> rfl

theorem name_means (field : Field) : fieldOf (.str field.name) = some field := by
  cases field <;> decide

theorem entries_given (o : Options) (field : Field) : givenFor o.entries field = [o.get field] := by
  cases field <;> simp [givenFor, entries, toPairs, Field.all, name_means]

-- What is said of one field in a result, and nothing else, decides what the field holds.
theorem settled_alike (start o p : Options) (given others : Field → Option Value) (field : Field)
    (one : Settled start given start o) (other : Settled start others start p) (same : others field = given field) :
    p.get field = o.get field := by
  cases said : given field with
  | none => rw [one.kept field said, other.kept field (same.trans said)]
  | some v =>
      obtain ⟨before, after, first⟩ := one.chosen field v said
      obtain ⟨between, last, second⟩ := other.chosen field v (same.trans said)
      obtain ⟨later, third⟩ := value_oblivious field v _ _ _ _ between first
      exact (EStateM.Result.ok.inj (second.symm.trans third)).1

theorem returned_settled (start : Options) (raw overrides : RawOptions) (log after : Log) (o : Options)
    (returned : resolve start raw overrides log = .ok o after) :
    Readable (raw ++ overrides) ∧ Settled start (lastFor (raw ++ overrides)) start o := by
  have readable : Readable (raw ++ overrides) := by
    by_contra unreadable
    obtain ⟨failure, other, failed⟩ := unresolved start raw overrides unreadable log
    cases returned.symm.trans failed
  obtain ⟨p, later, worked, settled⟩ := resolved start raw overrides readable log
  obtain ⟨rfl, -⟩ := EStateM.Result.ok.inj (returned.symm.trans worked)
  exact ⟨readable, settled⟩

theorem rewritten_resolved (start : Options) (raw overrides other more : RawOptions) (o : Options)
    (readable : Readable (raw ++ overrides)) (settled : Settled start (lastFor (raw ++ overrides)) start o)
    (rewritten : Relation.ReflTransGen Rewritten (raw ++ overrides) (other ++ more)) (before : Log) :
    ∃ later, resolve start other more before = .ok o later := by
  obtain ⟨same, short⟩ := rewritings_kept _ _ rewritten
  have last (field : Field) : lastFor (other ++ more) field = lastFor (raw ++ overrides) field := by
    rw [last_given, last_given, same]
  obtain ⟨p, later, worked, others⟩ := resolved start other more
    ⟨short readable.1, fun field v given => readable.2 field v (last field ▸ given)⟩ before
  obtain rfl := fields_determine o p fun field => (settled_alike start o p _ _ field settled others (last field)).symm
  exact ⟨later, worked⟩

theorem entries_resolved (base o : Options) (before : Log) :
    ∃ later, resolve base o.entries [] before = .ok o later := by
  have last (field : Field) : lastFor (o.entries ++ []) field = some (o.get field) := by
    rw [List.append_nil, last_given, entries_given]
    rfl
  have readable : Readable (o.entries ++ []) := by
    refine ⟨fun entry member => ?_, fun field v given refuses => ?_⟩
    · rw [List.append_nil] at member
      obtain ⟨pair, -, rfl⟩ := List.mem_map.mp member
      rfl
    · obtain rfl := Option.some.inj ((last field).symm.trans given)
      have choice := get_choice o field
      have unlisted := refused_unlisted field _ refuses
      rw [choice_seen field _ choice, choice_found field _ choice] at unlisted
      cases unlisted
  obtain ⟨p, later, worked, settled⟩ := resolved base o.entries [] readable before
  obtain rfl := fields_determine o p fun field => by
    obtain ⟨between, after, chosen⟩ := settled.chosen field _ (last field)
    rw [choice_resolved field _ _ (get_choice o field)] at chosen
    exact (EStateM.Result.ok.inj chosen).1
  exact ⟨later, worked⟩

theorem resolve_last_given (start : Options) (raw overrides : RawOptions) (log after : Log) (o : Options)
    (returned : resolve start raw overrides log = .ok o after) :
    (∀ field, givenFor (raw ++ overrides) field = [] → o.get field = start.get field) ∧
    (∀ field v, (givenFor (raw ++ overrides) field).getLast? = some v →
      ∀ before, ∃ later, resolveValue field v (start.get field) before = .ok (o.get field) later) ∧
    (∀ other more before later p, resolve start other more before = .ok p later → ∀ field,
      givenFor (other ++ more) field = givenFor (raw ++ overrides) field → p.get field = o.get field) ∧
    (∀ other more, Relation.ReflTransGen Rewritten (raw ++ overrides) (other ++ more) →
      ∀ before, ∃ later, resolve start other more before = .ok o later) ∧
    ∀ base before, ∃ later, resolve base o.entries [] before = .ok o later := by
  obtain ⟨readable, settled⟩ := returned_settled start raw overrides log after o returned
  refine ⟨fun field none => ?_, fun field v last before => ?_, fun other more before later p worked field same => ?_,
    fun other more rewritten => rewritten_resolved start raw overrides other more o readable settled rewritten,
    fun base => entries_resolved base o⟩
  · exact settled.kept field (by rw [last_given, none]; rfl)
  · obtain ⟨between, later, chosen⟩ := settled.chosen field v ((last_given _ _).trans last)
    exact value_oblivious field v _ _ _ _ before chosen
  · obtain ⟨-, others⟩ := returned_settled start other more before later p worked
    exact settled_alike start o p _ _ field settled others (by rw [last_given, last_given, same])

-- An override has the last word on headings, and nothing is said of bullets.
def spelledOptions : RawOptions :=
  [(.str "headingStyle", .str "setext"), (.str "bogus", .bool true), (.str "--hr", .int 2)]

def dashedBullets : Options := { bulletMarker := .dash }

def dashedAll : Options := { bulletMarker := .dash, thematicBreak := .dash }

theorem spelled_options_resolved :
    (∃ log, resolve dashedBullets spelledOptions [(.str "t", .int 1)] [] = .ok dashedAll log) ∧
    (∃ log, resolve dashedBullets [(.str "headingStyle", .str "setext"), (.str "r", .int 2)]
      [(.str "bogus", .bool true), (.str "t", .int 1)] [] = .ok dashedAll log) ∧
    ∃ log, resolve {} dashedAll.entries [] [] = .ok dashedAll log := by
  obtain ⟨after, returned⟩ : ∃ after, resolve dashedBullets spelledOptions [(.str "t", .int 1)] [] =
      .ok dashedAll after := ⟨_, rfl⟩
  obtain ⟨-, -, -, rewritten, again⟩ := resolve_last_given _ _ _ _ _ _ returned
  have swapped := Rewritten.swapped [(.str "headingStyle", .str "setext")] [(.str "t", .int 1)]
    (.str "bogus", .bool true) (.str "--hr", .int 2) (by decide)
  have respelled := Rewritten.respelled [(.str "headingStyle", .str "setext")]
    [(.str "bogus", .bool true), (.str "t", .int 1)] (.str "--hr") (.str "r") (.int 2) (by decide) (by decide)
  exact ⟨⟨after, returned⟩, rewritten _ _ ((Relation.ReflTransGen.single swapped).tail respelled) [], again {} []⟩

end Downmark.Options
