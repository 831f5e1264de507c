import Downmark.Proofs.LoadedFiles
/-!
The search for the nearest options file. Main statement: in directories whose project files have no
tools or a table of them, the search finds the first options file on the way up, or that there is
none, exactly unless a project file that it comes to before is not UTF-8 or is given up by the reader.
-/

set_option autoImplicit false

namespace Downmark.Config

/-- The paths that are looked at in a directory, in order. -/
def looked (directory : FilePath) : List FilePath :=
  (fileNames ++ [projectName]).map fun name => directory ++ [name]

/-- The directories that are searched, the nearest first. -/
def directories (files : Files) (start : Option FilePath) : List FilePath :=
  match Files.place (start.getD files.current) with
  | .above _ => []
  | .within names => Files.upward names

/-- The paths that are looked at, in order. -/
def candidates (files : Files) (start : Option FilePath) : List FilePath :=
  (directories files start).flatMap looked

/-- What the search is for. -/
inductive IsOptionsFile (files : Files) (path : FilePath) : Prop where
  | dedicated (named : Files.lastName path ∈ fileNames) (there : (files.file? path).isSome)
  | project (options : RawOptions) (named : IsProject path) (holds : Holds files path options)
      (filled : options ≠ [])

/-- A project file that is not found to be malformed, but not read either. -/
inductive Breaks (files : Files) (path : FilePath) : Failure → Prop where
  | bytes (project : IsProject path) (found : files.file? path = some none) : Breaks files path .notUtf8
  | unread (s : Chars) (why : ReadError) (project : IsProject path)
      (found : files.file? path = some (some s)) (read : readAs .toml path s = .error (.unread why)) :
      Breaks files path (.unread why)

/-- The tools of a project, if it has any, are a table. -/
def OnlyTables (files : Files) (path : FilePath) : Prop :=
  IsProject path → ∀ entries v, Reads files path .toml (.dict entries) →
    entries.lookup (.str "tool") = some v → ∃ tools, v = .dict tools

/-- The first path in a list with a property, or that there is none. -/
def First (p : FilePath → Prop) (paths : List FilePath) : Option FilePath → Prop
  | none => ∀ path ∈ paths, ¬ p path
  | some path => ∃ before after, paths = before ++ path :: after ∧ p path ∧ ∀ earlier ∈ before, ¬ p earlier

/-- The search goes no further than here. -/
def Ends (files : Files) (path : FilePath) : Prop :=
  IsOptionsFile files path ∨ ∃ failure, Breaks files path failure

/-- What a search through some paths has to give. -/
inductive Outcome (files : Files) (paths : List FilePath) : EStateM.Result Failure Log (Option FilePath) → Prop where
  | found (path : FilePath) (after : Log) (first : First (Ends files) paths (some path))
      (options : IsOptionsFile files path) : Outcome files paths (.ok (some path) after)
  | nothing (after : Log) (first : First (Ends files) paths none) : Outcome files paths (.ok none after)
  | broken (path : FilePath) (failure : Failure) (after : Log) (first : First (Ends files) paths (some path))
      (breaks : Breaks files path failure) : Outcome files paths (.error failure after)

section

variable (p : FilePath → Prop) (paths others : List FilePath)

theorem first_unique (path other : FilePath) (one : First p paths (some path)) (two : First p paths (some other)) :
    path = other := by
  obtain ⟨before, after, rfl, own, earlier⟩ := one
  obtain ⟨before', after', split, own', earlier'⟩ := two
  rcases List.append_eq_append_iff.mp split with ⟨between, rfl, rest⟩ | ⟨between, rfl, rest⟩
  · cases between with
    | nil => exact (List.cons.inj rest).1
    | cons head between =>
        obtain ⟨rfl, -⟩ := List.cons.inj rest
        exact absurd own (earlier' path (by simp))
  · cases between with
    | nil => exact (List.cons.inj rest).1.symm
    | cons head between =>
        obtain ⟨rfl, -⟩ := List.cons.inj rest
        exact absurd own' (earlier other (by simp))

theorem first_before (path : FilePath) (first : First p paths (some path)) : First p (paths ++ others) (some path) := by
  obtain ⟨before, after, rfl, own, earlier⟩ := first
  exact ⟨before, after ++ others, by simp, own, earlier⟩

theorem first_behind (none : First p paths none) (found : Option FilePath) (first : First p others found) :
    First p (paths ++ others) found := by
  cases found with
  | none => exact fun path member => (List.mem_append.mp member).elim (none path) (first path)
  | some path =>
      obtain ⟨before, after, rfl, own, earlier⟩ := first
      exact ⟨paths ++ before, after, by simp, own, fun earlier' member =>
        (List.mem_append.mp member).elim (none earlier') (earlier earlier')⟩

end

section

variable (files : Files) (path : FilePath) (log : Log)

theorem load_section (text : Option Chars) (project : IsProject path) (found : files.file? path = some text) :
    loadFile files path log = match projectSection path text with
      | .ok options => .ok options log
      | .error failure => .error failure log := by
  unfold loadFile
  rw [found]
  simp only [beq_iff_eq]
  rw [if_pos project]
  cases projectSection path text <;> rfl

theorem holds_section (text : Option Chars) (options : RawOptions) (project : IsProject path)
    (found : files.file? path = some text) (holds : Holds files path options) :
    projectSection path text = .ok options := by
  obtain ⟨after, loaded⟩ := holds_loads files path [] options holds
  rw [load_section files path [] text project found] at loaded
  split at loaded
  · next given read => rw [read, (EStateM.Result.ok.inj loaded).1]
  · cases loaded

theorem section_reads (s : Chars) (v : Value) (read : readAs .toml path s = .ok v) :
    ∃ entries, v = .dict entries ∧ projectSection path (some s) = sectionOf path entries := by
  obtain ⟨entries, rfl⟩ := toml_table path s v read
  refine ⟨entries, rfl, ?_⟩
  dsimp only [projectSection, textOf, bind, Except.bind]
  rw [read]

/-- What a project file is good for. -/
theorem section_cases (text : Option Chars) (project : IsProject path) (found : files.file? path = some text)
    (tables : OnlyTables files path) :
    (∃ options, projectSection path text = .ok options ∧ Holds files path options) ∨
    (∃ why, projectSection path text = .error (.misconfigured why)) ∨
    ∃ failure, projectSection path text = .error failure ∧ Breaks files path failure := by
  cases text with
  | none => exact .inr (.inr ⟨.notUtf8, rfl, .bytes project found⟩)
  | some s =>
      cases read : readAs .toml path s with
      | error failure =>
          have failed : projectSection path (some s) = .error failure := by
            dsimp only [projectSection, textOf, bind, Except.bind]
            rw [read]
          obtain rfl | ⟨why, rfl⟩ := unread_cases path .toml s failure read
          · exact .inr (.inl ⟨_, failed⟩)
          · exact .inr (.inr ⟨_, failed, .unread s why project found read⟩)
      | ok v =>
          obtain ⟨entries, rfl, same⟩ := section_reads path s v read
          have reads : Reads files path .toml (.dict entries) :=
            ⟨project_supported path project, s, found, read⟩
          rw [same]
          cases tool : entries.lookup (.str "tool") with
          | none => exact .inl ⟨[], section_toolless path entries tool, .toolless entries project reads tool⟩
          | some w =>
              obtain ⟨tools, rfl⟩ := tables project entries w reads tool
              cases own : tools.lookup (.str sectionName) with
              | none =>
                  exact .inl ⟨[], section_unlisted path entries tools tool own,
                    .unlisted entries tools project reads tool own⟩
              | some u =>
                  by_cases table : ∃ options, u = .dict options
                  · obtain ⟨options, rfl⟩ := table
                    exact .inl ⟨options, section_listed path entries tools options tool own,
                      .listed entries tools options project reads tool own⟩
                  · rw [not_exists] at table
                    exact .inr (.inl ⟨_, section_no_table path entries tools u tool own table⟩)

theorem project_not_dedicated (project : IsProject path) : Files.lastName path ∉ fileNames := by
  rw [project]
  decide

theorem options_iff (project : IsProject path) :
    IsOptionsFile files path ↔ ∃ options, Holds files path options ∧ options ≠ [] := by
  constructor
  · rintro (⟨named, -⟩ | ⟨options, -, holds, filled⟩)
    · exact absurd named (project_not_dedicated path project)
    · exact ⟨options, holds, filled⟩
  · rintro ⟨options, holds, filled⟩
    exact .project options project holds filled

theorem breaks_section (text : Option Chars) (failure : Failure) (found : files.file? path = some text)
    (breaks : Breaks files path failure) :
    projectSection path text = .error failure ∧ ∀ why, failure ≠ .misconfigured why := by
  cases breaks with
  | bytes project bytes =>
      obtain rfl := Option.some.inj (found.symm.trans bytes)
      exact ⟨rfl, nofun⟩
  | unread s why project here read =>
      obtain rfl := Option.some.inj (found.symm.trans here)
      refine ⟨?_, nofun⟩
      dsimp only [projectSection, textOf, bind, Except.bind]
      rw [read]

-- A file with options is none that breaks, and a file breaks in one way.
theorem breaks_no_options (failure : Failure) (breaks : Breaks files path failure) : ¬ IsOptionsFile files path := by
  intro options
  obtain ⟨text, found, project⟩ : ∃ text, files.file? path = some text ∧ IsProject path := by
    cases breaks with
    | bytes project found => exact ⟨_, found, project⟩
    | unread s why project found read => exact ⟨_, found, project⟩
  obtain ⟨given, holds, -⟩ := (options_iff files path project).mp options
  cases (holds_section files path text given project found holds).symm.trans
    (breaks_section files path text failure found breaks).1

theorem breaks_unique (failure other : Failure) (one : Breaks files path failure) (two : Breaks files path other) :
    failure = other := by
  obtain ⟨text, found⟩ : ∃ text, files.file? path = some text := by
    cases one with
    | bytes project found => exact ⟨_, found⟩
    | unread s why project found read => exact ⟨_, found⟩
  exact Except.error.inj ((breaks_section files path text failure found one).1.symm.trans
    (breaks_section files path text other found two).1)

end

theorem last_name (directory : FilePath) (name : String) : Files.lastName (directory ++ [name]) = name := by
  simp [Files.lastName]

theorem dedicated_ends_iff (files : Files) (path : FilePath) (named : Files.lastName path ∈ fileNames) :
    Ends files path ↔ (files.file? path).isSome := by
  have other : ¬ IsProject path := fun project => project_not_dedicated path project named
  constructor
  · rintro ((⟨-, there⟩ | ⟨options, project, -, -⟩) | ⟨failure, breaks⟩)
    · exact there
    · exact absurd project other
    · cases breaks with
      | bytes project found => exact absurd project other
      | unread s why project found read => exact absurd project other
  · exact fun there => .inl (.dedicated named there)

theorem project_ends_iff (files : Files) (path : FilePath) (project : IsProject path) :
    Ends files path ↔ (∃ options, Holds files path options ∧ options ≠ []) ∨ ∃ failure, Breaks files path failure := by
  unfold Ends
  rw [options_iff files path project]

theorem project_missing (files : Files) (path : FilePath) (project : IsProject path)
    (missing : files.file? path = none) : ¬ Ends files path := by
  rw [project_ends_iff files path project]
  rintro (⟨options, holds, -⟩ | ⟨failure, breaks⟩)
  · obtain ⟨after, loaded⟩ := holds_loads files path [] options holds
    cases loaded.symm.trans (load_missing files path [] missing)
  · cases breaks with
    | bytes _ found => cases missing.symm.trans found
    | unread s why _ found read => cases missing.symm.trans found

-- Without a file of a fixed name the project file decides.
theorem project_decides (files : Files) (directory : FilePath)
    (none : ∀ name ∈ fileNames, ¬ (files.file? (directory ++ [name])).isSome) (found : Option FilePath)
    (first : First (Ends files) [directory ++ [projectName]] found) : First (Ends files) (looked directory) found := by
  unfold looked
  rw [List.map_append]
  refine first_behind _ _ _ (fun path member => ?_) found first
  obtain ⟨name, listed, rfl⟩ := List.mem_map.mp member
  rw [dedicated_ends_iff files _ (by rwa [last_name])]
  exact none name listed

theorem directory_outcome (files : Files) (directory : FilePath) (log : Log)
    (tables : OnlyTables files (directory ++ [projectName])) :
    Outcome files (looked directory) (inDirectory files directory log) := by
  have project : IsProject (directory ++ [projectName]) := last_name directory projectName
  unfold inDirectory
  cases dedicated : fileNames.find? fun name => (files.file? (directory ++ [name])).isSome with
  | some name =>
      obtain ⟨there, before, after, split, earlier⟩ := List.find?_eq_some_iff_append.mp dedicated
      have named : ∀ other ∈ fileNames, Files.lastName (directory ++ [other]) ∈ fileNames := fun other member => by
        rwa [last_name]
      have options : IsOptionsFile files (directory ++ [name]) := .dedicated (named name (by simp [split])) there
      refine .found _ log ⟨before.map fun other => directory ++ [other],
        (after ++ [projectName]).map fun other => directory ++ [other], ?_, .inl options, ?_⟩ options
      · simp [looked, split]
      · intro path member
        obtain ⟨other, listed, rfl⟩ := List.mem_map.mp member
        rw [dedicated_ends_iff files _ (named other (by simp [split, listed]))]
        simpa using earlier other listed
  | none =>
      have none : ∀ name ∈ fileNames, ¬ (files.file? (directory ++ [name])).isSome :=
        List.find?_eq_none.mp dedicated
      have alone : Ends files (directory ++ [projectName]) →
          First (Ends files) (looked directory) (some (directory ++ [projectName])) := fun ends =>
        project_decides files directory none _ ⟨[], [], rfl, ends, by simp⟩
      have passed : ¬ Ends files (directory ++ [projectName]) → First (Ends files) (looked directory) Option.none :=
        fun goes => project_decides files directory none _ (by simpa [First] using goes)
      dsimp only
      cases found : files.file? (directory ++ [projectName]) with
      | none => exact .nothing log (passed (project_missing files _ project found))
      | some text =>
          dsimp only
          rcases section_cases files _ text project found tables with
            ⟨options, read, holds⟩ | ⟨why, read⟩ | ⟨failure, read, breaks⟩
          · rw [read]
            cases options with
            | nil =>
                refine .nothing log (passed fun ends => ?_)
                rcases (project_ends_iff files _ project).mp ends with ⟨others, also, filled⟩ | ⟨failure, breaks⟩
                · cases read.symm.trans (holds_section files _ text others project found also)
                  exact filled rfl
                · cases read.symm.trans (breaks_section files _ text failure found breaks).1
            | cons option rest =>
                have filled : IsOptionsFile files (directory ++ [projectName]) :=
                  .project _ project holds (List.cons_ne_nil option rest)
                exact .found _ log (alone (.inl filled)) filled
          · rw [read]
            refine .nothing _ (passed fun ends => ?_)
            rcases (project_ends_iff files _ project).mp ends with ⟨others, also, -⟩ | ⟨failure, breaks⟩
            · cases read.symm.trans (holds_section files _ text others project found also)
            · obtain ⟨failed, other⟩ := breaks_section files _ text failure found breaks
              exact other why (Except.error.inj (failed.symm.trans read))
          · rw [read]
            have ends := alone (.inr ⟨failure, breaks⟩)
            cases breaks with
            | bytes _ bytes => exact .broken _ _ log ends (.bytes project bytes)
            | unread s why _ here unread => exact .broken _ _ log ends (.unread s why project here unread)

theorem search_outcome (files : Files) (paths : List FilePath) : ∀ log : Log,
    (∀ directory ∈ paths, OnlyTables files (directory ++ [projectName])) →
    Outcome files (paths.flatMap looked) (search files paths log) := by
  induction paths with
  | nil => exact fun log _ => .nothing log (fun _ member => absurd member (by simp))
  | cons directory rest ih =>
      intro log tables
      have here := directory_outcome files directory log (tables directory List.mem_cons_self)
      rw [List.flatMap_cons]
      unfold search
      dsimp only [bind, EStateM.bind]
      cases looks : inDirectory files directory log with
      | error failure after =>
          rw [looks] at here
          cases here with
          | broken path _ _ first breaks => exact .broken path failure after (first_before _ _ _ path first) breaks
      | ok found after =>
          rw [looks] at here
          cases here with
          | found path _ first options => exact .found path after (first_before _ _ _ path first) options
          | nothing _ none =>
              have above := ih after fun other member => tables other (List.mem_cons_of_mem _ member)
              dsimp only
              cases later : search files rest after with
              | error failure last =>
                  rw [later] at above
                  cases above with
                  | broken path _ _ first breaks =>
                      exact .broken path failure last (first_behind _ _ _ none _ first) breaks
              | ok found last =>
                  rw [later] at above
                  cases above with
                  | found path _ first options => exact .found path last (first_behind _ _ _ none _ first) options
                  | nothing _ first => exact .nothing last (first_behind _ _ _ none _ first)

theorem find_outcome (files : Files) (start : Option FilePath) (log : Log)
    (tables : ∀ path ∈ candidates files start, OnlyTables files path) :
    Outcome files (candidates files start) (find files start log) := by
  have each : ∀ directory ∈ directories files start, OnlyTables files (directory ++ [projectName]) :=
    fun directory member => tables _ (List.mem_flatMap.mpr ⟨directory, member, by simp [looked]⟩)
  unfold find
  unfold candidates directories at *
  cases place : Files.place (start.getD files.current) with
  | above levels => exact .nothing log (fun _ member => absurd member (by simp))
  | within names =>
      rw [place] at each
      exact search_outcome files (Files.upward names) log each

/-- The answer that a search is to give. -/
def Nearest (files : Files) (start found : Option FilePath) : Prop :=
  First (IsOptionsFile files) (candidates files start) found

theorem first_weaken (p q : FilePath → Prop) (paths : List FilePath) (found : Option FilePath)
    (weaker : ∀ path, q path → p path) (own : ∀ path, found = some path → q path) (first : First p paths found) :
    First q paths found := by
  cases found with
  | none => exact fun path member holds => first path member (weaker path holds)
  | some path =>
      obtain ⟨before, after, split, -, earlier⟩ := first
      exact ⟨before, after, split, own path rfl, fun other member holds => earlier other member (weaker other holds)⟩

/-- In directories whose project files have no tools or a table of them, a search finds the first options
file in the order in which paths are looked at, or that there is none, unless it comes to a project file
before that is neither read nor found to be malformed; then it fails as reading that file does. -/
theorem nearest_file_found (files : Files) (start : Option FilePath) (log : Log)
    (tables : ∀ path ∈ candidates files start, OnlyTables files path) :
    (∀ found after, find files start log = .ok found after → Nearest files start found) ∧
    ∀ failure, (∃ after, find files start log = .error failure after) ↔
      ∃ path, First (Ends files) (candidates files start) (some path) ∧ Breaks files path failure := by
  have outcome := find_outcome files start log tables
  refine ⟨fun found after given => ?_, fun failure => ⟨?_, ?_⟩⟩
  · rw [given] at outcome
    refine first_weaken (Ends files) _ _ found (fun _ options => .inl options) ?_ ?_
    · rintro path rfl
      cases outcome with
      | found _ _ first options => exact options
    · cases outcome with
      | found path _ first options => exact first
      | nothing _ first => exact first
  · rintro ⟨after, failed⟩
    rw [failed] at outcome
    cases outcome with
    | broken path _ _ first breaks => exact ⟨path, first, breaks⟩
  · rintro ⟨path, first, breaks⟩
    cases given : find files start log with
    | ok found after =>
        rw [given] at outcome
        cases outcome with
        | found other _ also options =>
            obtain rfl := first_unique _ _ _ _ first also
            exact absurd options (breaks_no_options files path failure breaks)
        | nothing _ none =>
            obtain ⟨before, rest, split, own, -⟩ := first
            exact absurd own (none path (by simp [split]))
    | error other after =>
        rw [given] at outcome
        cases outcome with
        | broken place _ _ also its =>
            obtain rfl := first_unique _ _ _ _ first also
            exact ⟨after, by rw [breaks_unique files path failure other breaks its]⟩

/-- A malformed project file below one with a section. -/
def nestedProjects : Files :=
  { entries := [(["a", "pyproject.toml"], .file (some "[".toList)),
      (["pyproject.toml"], .file (some "tool.markturn.b = 1".toList))] }

theorem malformed_project_passed :
    (∃ after, find nestedProjects (some ["a"]) [] = .ok (some ["pyproject.toml"]) after) ∧
      Nearest nestedProjects (some ["a"]) (some ["pyproject.toml"]) := by
  have spots : ∀ path ∈ candidates nestedProjects (some ["a"]), IsProject path →
      path = ["a", "pyproject.toml"] ∨ path = ["pyproject.toml"] := by decide +kernel
  have below : nestedProjects.file? ["a", "pyproject.toml"] = some (some "[".toList) := by decide +kernel
  have above : nestedProjects.file? ["pyproject.toml"] = some (some "tool.markturn.b = 1".toList) := by
    decide +kernel
  have malformed : (readAs .toml ["a", "pyproject.toml"] "[".toList).toOption = none := by decide +kernel
  have read : readAs .toml ["pyproject.toml"] "tool.markturn.b = 1".toList =
      .ok (.named [("tool", .named [("markturn", .named [("b", .int 1)])])]) := of_option (by decide +kernel)
  have tables : ∀ path ∈ candidates nestedProjects (some ["a"]), OnlyTables nestedProjects path := by
    rintro path member project entries v ⟨-, s, found, reads⟩ tool
    rcases spots path member project with rfl | rfl
    · obtain rfl := Option.some.inj (Option.some.inj (below.symm.trans found))
      rw [reads] at malformed
      cases malformed
    · obtain rfl := Option.some.inj (Option.some.inj (above.symm.trans found))
      cases Value.dict.inj (Except.ok.inj (read.symm.trans reads))
      exact ⟨_, (Option.some.inj tool).symm⟩
  obtain ⟨right, -⟩ := nearest_file_found nestedProjects (some ["a"]) [] tables
  have ends : (match find nestedProjects (some ["a"]) [] with
      | .ok found _ => found == some ["pyproject.toml"]
      | .error _ _ => false) = true := by decide +kernel
  cases given : find nestedProjects (some ["a"]) [] with
  | ok found after =>
      rw [given] at ends
      obtain rfl := eq_of_beq ends
      exact ⟨⟨after, rfl⟩, right _ after given⟩
  | error failure after =>
      rw [given] at ends
      cases ends

/-- A project file that is not UTF-8 below an options file. -/
def garbledProject : Files :=
  { entries := [(["a", "pyproject.toml"], .file none), ([".markturn.toml"], .file (some "x = 1".toList))] }

theorem garbled_project_stops : ¬ ∀ (files : Files) (start : Option FilePath) (log : Log),
    (∀ path ∈ candidates files start, OnlyTables files path) →
      ∃ found after, find files start log = .ok found after ∧ Nearest files start found := by
  intro claimed
  have spots : ∀ path ∈ candidates garbledProject (some ["a"]), IsProject path →
      garbledProject.file? path = some none ∨ garbledProject.file? path = none := by decide +kernel
  obtain ⟨found, after, given, -⟩ := claimed garbledProject (some ["a"]) [] <| by
    rintro path member project entries v ⟨-, s, there, -⟩ tool
    rcases spots path member project with bytes | missing
    · cases bytes.symm.trans there
    · cases missing.symm.trans there
  have ends : (match find garbledProject (some ["a"]) [] with
      | .ok _ _ => true
      | .error _ _ => false) = false := by decide +kernel
  rw [given] at ends
  cases ends

end Downmark.Config
