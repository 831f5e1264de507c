import Downmark.Config.Load
/-!
What loading an options file gives. Main statement: with readers that find a value or say that the text does not
follow its format, the outcome is the mapping that the file holds, or a failure that says the file is misconfigured,
but for a text that is not UTF-8, tools of a project that are no table, and a YAML root that is empty and no mapping.
-/

set_option autoImplicit false

namespace Downmark.Config

/-- Whether the options of a file are a section of it. -/
abbrev IsProject (path : FilePath) : Prop := Files.lastName path = projectName

/-- The format that a file is read in, if its name is a supported one. -/
def supported? (path : FilePath) : Option FileFormat :=
  if Files.lastName path = projectName then some .toml else formatOf? path

/-- Whether a file is one that reads as a value in a format. -/
structure Reads (files : Files) (path : FilePath) (format : FileFormat) (v : Value) : Prop where
  named : supported? path = some format
  read : ∃ s, files.file? path = some (some s) ∧ readAs format path s = .ok v

/-- The options that a file holds. -/
inductive Holds (files : Files) (path : FilePath) : RawOptions → Prop where
  | root (format : FileFormat) (options : RawOptions) (own : ¬ IsProject path)
      (read : Reads files path format (.dict options)) : Holds files path options
  | noValue (own : ¬ IsProject path) (read : Reads files path .yaml .null) : Holds files path []
  | listed (entries tools options : RawOptions) (project : IsProject path)
      (read : Reads files path .toml (.dict entries)) (tool : entries.lookup (.str "tool") = some (.dict tools))
      (own : tools.lookup (.str sectionName) = some (.dict options)) : Holds files path options
  | unlisted (entries tools : RawOptions) (project : IsProject path)
      (read : Reads files path .toml (.dict entries)) (tool : entries.lookup (.str "tool") = some (.dict tools))
      (own : tools.lookup (.str sectionName) = none) : Holds files path []
  | toolless (entries : RawOptions) (project : IsProject path)
      (read : Reads files path .toml (.dict entries)) (tool : entries.lookup (.str "tool") = none) :
      Holds files path []

/-- The files that are taken for a mapping, or not found to be misconfigured, by mistake. -/
inductive Slips (files : Files) (path : FilePath) : Prop where
  | bytes (format : FileFormat) (named : supported? path = some format) (found : files.file? path = some none)
  | tools (entries : RawOptions) (v : Value) (project : IsProject path)
      (read : Reads files path .toml (.dict entries)) (tool : entries.lookup (.str "tool") = some v)
      (odd : ∀ tools, v ≠ .dict tools)
  | root (v : Value) (own : ¬ IsProject path) (read : Reads files path .yaml v) (empty : v.isEmpty = true)
      (given : v ≠ .null) (odd : ∀ entries, v ≠ .dict entries)

/-- Whether loading a file gives the options that it holds, and else tells that it is misconfigured. -/
structure Faithful (files : Files) (path : FilePath) (log : Log) : Prop where
  only : (∃ options after, loadFile files path log = .ok options after) ∨
    ∃ why after, loadFile files path log = .error (.misconfigured why) after
  mapping : ∀ options, (∃ after, loadFile files path log = .ok options after) ↔ Holds files path options

section

variable (files : Files) (path : FilePath) (log : Log)

theorem reads_unique {format other : FileFormat} {v w : Value} (first : Reads files path format v)
    (second : Reads files path other w) : format = other ∧ v = w := by
  obtain ⟨named, s, found, read⟩ := first
  obtain ⟨also, t, again, reads⟩ := second
  obtain rfl := Option.some.inj (named.symm.trans also)
  obtain rfl := Option.some.inj (Option.some.inj (found.symm.trans again))
  exact ⟨rfl, Except.ok.inj (read.symm.trans reads)⟩

theorem project_supported (project : IsProject path) : supported? path = some .toml := if_pos project

theorem own_supported (own : ¬ IsProject path) : supported? path = formatOf? path := if_neg own

theorem toml_table (s : Chars) (v : Value) (read : readAs .toml path s = .ok v) : ∃ entries, v = .dict entries := by
  unfold readAs at read
  dsimp only at read
  split at read
  · rename_i found
    obtain rfl := Except.ok.inj read
    unfold Toml.read at found
    dsimp only [bind, Except.bind] at found
    split at found
    · cases found
    · exact ⟨_, (Except.ok.inj found).symm⟩
  · cases read
  · cases read

/-- How far a file is read. -/
theorem reading_cases : files.file? path = none ∨ supported? path = none ∨
    (files.file? path = some none ∧ (supported? path).isSome) ∨
    (∃ s format failure, files.file? path = some (some s) ∧ supported? path = some format ∧
      readAs format path s = .error failure) ∨
    ∃ format v, Reads files path format v := by
  cases found : files.file? path with
  | none => exact .inl rfl
  | some text =>
      cases named : supported? path with
      | none => exact .inr (.inl rfl)
      | some format =>
          cases text with
          | none => exact .inr (.inr (.inl ⟨rfl, rfl⟩))
          | some s =>
              cases read : readAs format path s with
              | error failure => exact .inr (.inr (.inr (.inl ⟨s, format, failure, rfl, rfl, read⟩)))
              | ok v => exact .inr (.inr (.inr (.inr ⟨format, v, named, s, found, read⟩)))

theorem load_missing (missing : files.file? path = none) :
    loadFile files path log = .error (.misconfigured (.missing (Files.shown path))) log := by
  unfold loadFile
  rw [missing]
  rfl

theorem load_unsupported (text : Option Chars) (found : files.file? path = some text)
    (odd : supported? path = none) :
    loadFile files path log =
      .error (.misconfigured (.unsupported (String.ofList (Files.suffix path)))) log := by
  have own : ¬ IsProject path := fun project => by cases (project_supported path project).symm.trans odd
  rw [own_supported path own] at odd
  unfold loadFile
  rw [found, odd]
  simp only [beq_iff_eq]
  rw [if_neg own]
  rfl

theorem load_bytes (found : files.file? path = some none) (named : (supported? path).isSome) :
    loadFile files path log = .error .notUtf8 log := by
  unfold loadFile
  rw [found]
  simp only [beq_iff_eq]
  by_cases project : IsProject path
  · rw [if_pos project]
    rfl
  · rw [own_supported path project] at named
    obtain ⟨format, known⟩ := Option.isSome_iff_exists.mp named
    rw [if_neg project, known]
    rfl

theorem load_unread (s : Chars) (format : FileFormat) (failure : Failure) (found : files.file? path = some (some s))
    (named : supported? path = some format) (unread : readAs format path s = .error failure) :
    loadFile files path log = .error failure log := by
  unfold loadFile
  rw [found]
  simp only [beq_iff_eq]
  by_cases project : IsProject path
  · obtain rfl := Option.some.inj (named.symm.trans (project_supported path project))
    rw [if_pos project]
    dsimp only [projectSection, textOf, bind, Except.bind]
    rw [unread]
    rfl
  · rw [own_supported path project] at named
    rw [if_neg project, named]
    dsimp only [textOf]
    rw [pure_bind, unread]
    rfl

theorem load_project (project : IsProject path) (entries : RawOptions)
    (reads : Reads files path .toml (.dict entries)) :
    loadFile files path log = match sectionOf path entries with
      | .ok options => .ok options log
      | .error failure => .error failure log := by
  obtain ⟨named, s, found, read⟩ := reads
  unfold loadFile
  rw [found]
  simp only [beq_iff_eq]
  rw [if_pos project]
  dsimp only [projectSection, textOf, bind, Except.bind]
  rw [read]
  dsimp only
  cases sectionOf path entries <;> rfl

theorem load_root (own : ¬ IsProject path) (format : FileFormat) (v : Value) (reads : Reads files path format v) :
    loadFile files path log = match orEmpty format v with
      | .dict options => .ok options (log ++ [.configLoaded options.length (Files.shown path)])
      | other => .error (.misconfigured (.notMapping (Files.shown path) other.kind)) log := by
  obtain ⟨named, s, found, read⟩ := reads
  rw [own_supported path own] at named
  unfold loadFile
  rw [found]
  simp only [beq_iff_eq]
  rw [if_neg own, named]
  dsimp only [textOf]
  rw [pure_bind, read]
  dsimp only
  rw [pure_bind]
  cases orEmpty format v <;> rfl

theorem section_listed (entries tools options : RawOptions)
    (tool : entries.lookup (.str "tool") = some (.dict tools))
    (own : tools.lookup (.str sectionName) = some (.dict options)) : sectionOf path entries = .ok options := by
  unfold sectionOf
  rw [tool, Option.getD_some]
  dsimp only
  rw [own]
  rfl

theorem section_unlisted (entries tools : RawOptions) (tool : entries.lookup (.str "tool") = some (.dict tools))
    (own : tools.lookup (.str sectionName) = none) : sectionOf path entries = .ok [] := by
  unfold sectionOf
  rw [tool, Option.getD_some]
  dsimp only
  rw [own]
  rfl

theorem section_toolless (entries : RawOptions) (tool : entries.lookup (.str "tool") = none) :
    sectionOf path entries = .ok [] := by
  unfold sectionOf
  rw [tool]
  rfl

theorem section_odd (entries : RawOptions) (v : Value) (tool : entries.lookup (.str "tool") = some v)
    (odd : ∀ tools, v ≠ .dict tools) : sectionOf path entries = .error (.notATable v.kind) := by
  unfold sectionOf
  rw [tool, Option.getD_some]
  cases v with
  | dict tools => exact absurd rfl (odd tools)
  | scalar | list => rfl

theorem section_no_table (entries tools : RawOptions) (v : Value)
    (tool : entries.lookup (.str "tool") = some (.dict tools)) (own : tools.lookup (.str sectionName) = some v)
    (odd : ∀ options, v ≠ .dict options) :
    sectionOf path entries = .error (.misconfigured (.sectionNotTable (Files.shown path) v.kind)) := by
  unfold sectionOf
  rw [tool, Option.getD_some]
  dsimp only
  rw [own, Option.getD_some]
  cases v with
  | dict options => exact absurd rfl (odd options)
  | scalar | list => rfl

theorem holds_loads (options : RawOptions) (holds : Holds files path options) :
    ∃ after, loadFile files path log = .ok options after := by
  cases holds with
  | root format _ own read =>
      have kept : orEmpty format (.dict options) = .dict options := by
        unfold orEmpty
        split
        · rename_i empty
          simp only [Bool.and_eq_true, decide_eq_true_eq, Value.isEmpty, List.isEmpty_iff] at empty
          rw [empty.2]
        · rfl
      rw [load_root files path log own format _ read, kept]
      exact ⟨_, rfl⟩
  | noValue own read =>
      rw [load_root files path log own .yaml _ read]
      exact ⟨_, rfl⟩
  | listed entries tools _ project read tool own =>
      rw [load_project files path log project entries read, section_listed path entries tools options tool own]
      exact ⟨_, rfl⟩
  | unlisted entries tools project read tool own =>
      rw [load_project files path log project entries read, section_unlisted path entries tools tool own]
      exact ⟨_, rfl⟩
  | toolless entries project read tool =>
      rw [load_project files path log project entries read, section_toolless path entries tool]
      exact ⟨_, rfl⟩

theorem read_outcome (format : FileFormat) (v : Value) (reads : Reads files path format v) :
    (∃ options, Holds files path options) ∨ (∃ why, loadFile files path log = .error (.misconfigured why) log) ∨
      Slips files path := by
  by_cases project : IsProject path
  · obtain rfl := Option.some.inj (reads.named.symm.trans (project_supported path project))
    obtain ⟨s, -, read⟩ := reads.read
    obtain ⟨entries, rfl⟩ := toml_table path s v read
    rw [load_project files path log project entries reads]
    cases tool : entries.lookup (.str "tool") with
    | none => exact .inl ⟨_, .toolless entries project reads tool⟩
    | some w =>
        by_cases table : ∃ tools, w = .dict tools
        · obtain ⟨tools, rfl⟩ := table
          cases own : tools.lookup (.str sectionName) with
          | none => exact .inl ⟨_, .unlisted entries tools project reads tool own⟩
          | some u =>
              by_cases listed : ∃ options, u = .dict options
              · obtain ⟨options, rfl⟩ := listed
                exact .inl ⟨options, .listed entries tools options project reads tool own⟩
              · rw [not_exists] at listed
                rw [section_no_table path entries tools u tool own listed]
                exact .inr (.inl ⟨_, rfl⟩)
        · rw [not_exists] at table
          exact .inr (.inr (.tools entries w project reads tool table))
  · by_cases mapping : ∃ options, v = .dict options
    · obtain ⟨options, rfl⟩ := mapping
      exact .inl ⟨options, .root format options project reads⟩
    · rw [not_exists] at mapping
      by_cases empty : format = .yaml ∧ v.isEmpty = true
      · obtain ⟨rfl, empty⟩ := empty
        by_cases null : v = .null
        · subst null
          exact .inl ⟨_, .noValue project reads⟩
        · exact .inr (.inr (.root v project reads empty null mapping))
      · have kept : orEmpty format v = v := if_neg (by simpa using empty)
        rw [load_root files path log project format v reads, kept]
        refine .inr (.inl ?_)
        cases v with
        | dict options => exact absurd rfl (mapping options)
        | scalar | list => exact ⟨_, rfl⟩

theorem slips_hold_nothing (slips : Slips files path) (options : RawOptions) : ¬ Holds files path options := by
  intro holds
  cases slips with
  | bytes format named found =>
      have unread (other : FileFormat) (v : Value) : ¬ Reads files path other v := by
        rintro ⟨-, s, again, -⟩
        cases found.symm.trans again
      cases holds with
      | root other _ own read => exact unread other _ read
      | noValue own read => exact unread _ _ read
      | listed entries tools _ project read tool own => exact unread _ _ read
      | unlisted entries tools project read tool own => exact unread _ _ read
      | toolless entries project read tool => exact unread _ _ read
  | tools entries v project read tool odd =>
      have same {others : RawOptions} (reads : Reads files path .toml (.dict others)) : entries = others :=
        Value.dict.inj (reads_unique files path read reads).2
      cases holds with
      | root format _ own reads => exact own project
      | noValue own reads => exact own project
      | listed others tools _ project reads found own =>
          obtain rfl := same reads
          exact odd tools (Option.some.inj (tool.symm.trans found))
      | unlisted others tools project reads found own =>
          obtain rfl := same reads
          exact odd tools (Option.some.inj (tool.symm.trans found))
      | toolless others project reads found =>
          obtain rfl := same reads
          cases tool.symm.trans found
  | root v own read empty given odd =>
      cases holds with
      | root format _ also reads => exact odd options (reads_unique files path read reads).2
      | noValue also reads => exact given (reads_unique files path read reads).2
      | listed entries tools _ project reads found listed => exact own project
      | unlisted entries tools project reads found listed => exact own project
      | toolless entries project reads found => exact own project

theorem unread_cases (format : FileFormat) (s : Chars) (failure : Failure)
    (failed : readAs format path s = .error failure) :
    failure = .misconfigured (.unreadable format (Files.shown path)) ∨ ∃ why, failure = .unread why := by
  unfold readAs at failed
  dsimp only at failed
  split at failed
  · cases failed
  · exact .inl (Except.error.inj failed).symm
  · exact .inr ⟨_, (Except.error.inj failed).symm⟩

theorem load_cases (honest : ∀ s format why, files.file? path = some (some s) → supported? path = some format →
    readAs format path s ≠ .error (.unread why)) :
    (∃ options, Holds files path options) ∨ (∃ why, loadFile files path log = .error (.misconfigured why) log) ∨
      Slips files path := by
  rcases reading_cases files path with
    missing | odd | ⟨found, named⟩ | ⟨s, format, failure, found, named, failed⟩ | ⟨format, v, reads⟩
  · exact .inr (.inl ⟨_, load_missing files path log missing⟩)
  · cases found : files.file? path with
    | none => exact .inr (.inl ⟨_, load_missing files path log found⟩)
    | some text => exact .inr (.inl ⟨_, load_unsupported files path log text found odd⟩)
  · obtain ⟨format, known⟩ := Option.isSome_iff_exists.mp named
    exact .inr (.inr (.bytes format known found))
  · obtain rfl | ⟨why, rfl⟩ := unread_cases path format s failure failed
    · exact .inr (.inl ⟨_, load_unread files path log s format _ found named failed⟩)
    · exact absurd failed (honest s format why found named)
  · exact read_outcome files path log format v reads

theorem load_tools (entries : RawOptions) (v : Value) (project : IsProject path)
    (read : Reads files path .toml (.dict entries)) (tool : entries.lookup (.str "tool") = some v)
    (odd : ∀ tools, v ≠ .dict tools) : loadFile files path log = .error (.notATable v.kind) log := by
  rw [load_project files path log project entries read, section_odd path entries v tool odd]

theorem load_empty (v : Value) (own : ¬ IsProject path) (read : Reads files path .yaml v) (empty : v.isEmpty = true) :
    loadFile files path log = .ok [] (log ++ [.configLoaded 0 (Files.shown path)]) := by
  have taken : orEmpty .yaml v = .dict [] := if_pos (by simpa using empty)
  rw [load_root files path log own .yaml v read, taken]
  rfl

/-- With readers that find a value or call the text malformed, loading a file gives the mapping that the file holds,
and else tells that the file is misconfigured, exactly if it does not slip. -/
theorem loads_mappings_iff (honest : ∀ s format why, files.file? path = some (some s) →
    supported? path = some format → readAs format path s ≠ .error (.unread why)) :
    (Faithful files path log ↔ ¬ Slips files path) ∧
    ((supported? path).isSome → files.file? path = some none → loadFile files path log = .error .notUtf8 log) ∧
    (∀ entries v, IsProject path → Reads files path .toml (.dict entries) → entries.lookup (.str "tool") = some v →
      (∀ tools, v ≠ .dict tools) → loadFile files path log = .error (.notATable v.kind) log) ∧
    ∀ v, ¬ IsProject path → Reads files path .yaml v → v.isEmpty = true →
      ∃ after, loadFile files path log = .ok [] after := by
  refine ⟨⟨?misses, ?holds⟩, fun named found => load_bytes files path log found named,
    fun entries v => load_tools files path log entries v,
    fun v own read empty => ⟨_, load_empty files path log v own read empty⟩⟩
  case misses =>
    intro faithful slips
    have nothing (options : RawOptions) (after : Log) : loadFile files path log ≠ .ok options after := fun loaded =>
      slips_hold_nothing files path slips options ((faithful.mapping options).mp ⟨after, loaded⟩)
    obtain ⟨options, after, loaded⟩ | ⟨why, after, failed⟩ := faithful.only
    · exact nothing options after loaded
    · cases slips with
      | bytes format named found =>
          cases failed.symm.trans (load_bytes files path log found (Option.isSome_iff_exists.mpr ⟨format, named⟩))
      | tools entries v project read tool odd =>
          cases failed.symm.trans (load_tools files path log entries v project read tool odd)
      | root v own read empty given odd => exact nothing [] _ (load_empty files path log v own read empty)
  case holds =>
    intro fair
    rcases load_cases files path log honest with ⟨options, holds⟩ | ⟨why, failed⟩ | slips
    · obtain ⟨after, loaded⟩ := holds_loads files path log options holds
      refine ⟨.inl ⟨options, after, loaded⟩, fun others => ⟨?_, holds_loads files path log others⟩⟩
      rintro ⟨late, again⟩
      obtain ⟨rfl, -⟩ := EStateM.Result.ok.inj (loaded.symm.trans again)
      exact holds
    · refine ⟨.inr ⟨why, log, failed⟩, fun options => ⟨?_, holds_loads files path log options⟩⟩
      rintro ⟨after, loaded⟩
      cases failed.symm.trans loaded
    · exact absurd slips fair

end

theorem of_option {α β : Type} {result : Except α β} {b : β} (given : result.toOption = some b) : result = .ok b := by
  cases result with
  | error => cases given
  | ok => exact congrArg _ (Option.some.inj given)

/-- A directory with one file in it. -/
def onlyFile (name text : String) : Files := { entries := [([name], .file (some text.toList))] }

theorem only_file (name text : String) (plain : name ≠ "..") :
    (onlyFile name text).file? [name] = some (some text.toList) := by
  simp [Files.file?, onlyFile, Files.reach?, Files.isDirectory, plain]

theorem empty_object_faithful : Faithful (onlyFile "a.json" "\x7b\x7d") ["a.json"] [] := by
  have found := only_file "a.json" "\x7b\x7d" (by decide)
  have named : supported? ["a.json"] = some .json := by decide +kernel
  have read : readAs .json ["a.json"] "\x7b\x7d".toList = .ok (.dict []) := of_option (by decide +kernel)
  refine (loads_mappings_iff _ _ [] ?honest).1.mpr ?fair
  case honest =>
    intro s format why here known
    obtain rfl := Option.some.inj (Option.some.inj (found.symm.trans here))
    obtain rfl := Option.some.inj (named.symm.trans known)
    rw [read]
    nofun
  case fair =>
    rintro (⟨format, -, bytes⟩ | ⟨entries, v, project⟩ | ⟨v, own, reads⟩)
    · cases found.symm.trans bytes
    · exact absurd project (by decide)
    · cases named.symm.trans reads.named

theorem empty_list_accepted : ¬ ∀ (files : Files) (path : FilePath) (log : Log),
    (∀ s format why, files.file? path = some (some s) → supported? path = some format →
      readAs format path s ≠ .error (.unread why)) → Faithful files path log := by
  intro claimed
  have found := only_file "a.yaml" "[]" (by decide)
  have named : supported? ["a.yaml"] = some .yaml := by decide +kernel
  have own : ¬ IsProject ["a.yaml"] := by decide
  have read : readAs .yaml ["a.yaml"] "[]".toList = .ok (.list []) := of_option (by decide +kernel)
  have reads : Reads (onlyFile "a.yaml" "[]") ["a.yaml"] .yaml (.list []) := ⟨named, _, found, read⟩
  have faithful := claimed (onlyFile "a.yaml" "[]") ["a.yaml"] [] fun s format why here known => by
    obtain rfl := Option.some.inj (Option.some.inj (found.symm.trans here))
    obtain rfl := Option.some.inj (named.symm.trans known)
    rw [read]
    nofun
  have slips : Slips (onlyFile "a.yaml" "[]") ["a.yaml"] := .root _ own reads rfl nofun nofun
  exact slips_hold_nothing _ _ slips [] ((faithful.mapping []).mp ⟨_, load_empty _ _ [] _ own reads rfl⟩)

end Downmark.Config
