import Downmark.Config.Json
import Downmark.Config.Toml
import Downmark.Config.Yaml
import Downmark.Config.Files
import Downmark.Options.Resolve
/-!
Finding and loading options files.

A directory is looked at before those above it; in a directory, the files of fixed names come in a
fixed order, and last a project file with a section for the options that is not empty.
-/

set_option autoImplicit false

namespace Downmark.Config

/-- Names of options files, in the order in which they are looked for. -/
def fileNames : List String :=
  [".markturn.toml", ".markturn.yaml", ".markturn.yml", ".markturn.json"]

/-- A file of a project with a section for the options. -/
def projectName : String := "pyproject.toml"

def sectionName : String := "markturn"

/-- How deep the collections in a file may lie inside of one another: each takes some of the room,
and how much depends on the format. -/
def room : FileFormat → Nat
  | .toml => 986
  | .yaml => 976
  | .json => 988

/-- Reads the text of a file in some format. -/
def readAs (format : FileFormat) (path : FilePath) (s : Chars) : Except Failure Value :=
  let found := match format with
    | .toml => Toml.read (room .toml) s
    | .yaml => Yaml.read (room .yaml) s
    | .json => Json.read (room .json) s
  match found with
  | .ok v => .ok v
  | .error .malformed => .error (.misconfigured (.unreadable format (Files.shown path)))
  | .error why => .error (.unread why)

/-- The text of a file. -/
def textOf : Option Chars → Except Failure Chars
  | some s => .ok s
  | none => .error .notUtf8

/-- The section for the options among the entries of a project file; a missing one is empty. -/
def sectionOf (path : FilePath) (entries : RawOptions) : Except Failure RawOptions :=
  match (entries.lookup (.str "tool")).getD (.dict []) with
  | .dict tools =>
    match (tools.lookup (.str sectionName)).getD (.dict []) with
    | .dict options => .ok options
    | v => .error (.misconfigured (.sectionNotTable (Files.shown path) v.kind))
  | v => .error (.notATable v.kind)

/-- The section for the options of a project file. -/
def projectSection (path : FilePath) (text : Option Chars) :
    Except Failure RawOptions := do
  let s ← textOf text
  match ← readAs .toml path s with
  | .dict entries => sectionOf path entries
  | _ => pure []

/-- Whether a directory has an options file, and which. A project file that cannot be used is
skipped, unless it is not even text or has no room for sections. -/
def inDirectory (files : Files) (path : FilePath) : Logged (Option FilePath) := do
  match fileNames.find? fun name => (files.file? (path ++ [name])).isSome with
  | some name => pure (some (path ++ [name]))
  | none =>
    let project := path ++ [projectName]
    match files.file? project with
    | none => pure none
    | some text =>
      match projectSection project text with
      | .ok options => pure (if options.isEmpty then none else some project)
      | .error (.misconfigured _) => do
        note (.configSkipped (Files.shown project))
        pure none
      | .error failure => throw failure

/-- The first options file in some directories. -/
def search (files : Files) : List FilePath → Logged (Option FilePath)
  | [] => pure none
  | path :: rest => do
    match ← inDirectory files path with
    | some found => pure (some found)
    | none => search files rest

/-- The nearest options file, from a directory or the working directory upward. -/
def find (files : Files) (start : Option FilePath) : Logged (Option FilePath) :=
  match Files.place (start.getD files.current) with
  | .above _ => pure none
  | .within names => search files (Files.upward names)

/-- The format that the name of a file tells. -/
def formatOf? (path : FilePath) : Option FileFormat :=
  match String.ofList (Text.lower (Files.suffix path)) with
  | ".toml" => some .toml
  | ".yaml" => some .yaml
  | ".yml" => some .yaml
  | ".json" => some .json
  | _ => none

/-- What a format takes for an empty document. -/
def orEmpty (format : FileFormat) (v : Value) : Value :=
  if format = .yaml && v.isEmpty then .dict [] else v

/-- The mapping that a file holds. -/
def loadFile (files : Files) (path : FilePath) : Logged RawOptions := do
  let lift := fun {α : Type} (e : Except Failure α) => (match e with
    | .ok a => pure a
    | .error failure => throw failure : Logged α)
  match files.file? path with
  | none => throw (.misconfigured (.missing (Files.shown path)))
  | some text =>
    if Files.lastName path == projectName then lift (projectSection path text)
    else match formatOf? path with
      | none => throw (.misconfigured (.unsupported (String.ofList (Files.suffix path))))
      | some format => do
        let s ← lift (textOf text)
        let v ← lift (readAs format path s)
        match orEmpty format v with
        | .dict entries => do
          note (.configLoaded entries.length (Files.shown path))
          pure entries
        | other => throw (.misconfigured (.notMapping (Files.shown path) other.kind))

/-- The options that a file holds, or the nearest options file if none is named. -/
def loadOptions (files : Files) (path start : Option FilePath) : Logged Options := do
  let found ← match path with
    | some path => pure (some path)
    | none => find files start
  match found with
  | none => pure {}
  | some path => do
    note (.configUsed (Files.shown path))
    let entries ← loadFile files path
    Options.resolve {} entries []

end Downmark.Config
