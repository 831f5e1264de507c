import Downmark.Value.Basic
/-!
Directories and files below one root directory, above which there is nothing to find.
-/

set_option autoImplicit false

namespace Downmark

/-- What stands at a path. -/
inductive FileEntry where
  | directory
  /-- A file with its text, if it is UTF-8. -/
  | file (text : Option Chars)

/-- Names from the root directory down, some of which may lead up again. -/
abbrev FilePath := List String

/-- A place from which files are looked for: the names from the root directory down, or a directory
above it. -/
inductive Place where
  | within (names : FilePath)
  | above (levels : Nat)

structure Files where
  entries : List (FilePath × FileEntry) := []
  /-- The working directory. -/
  current : FilePath := []

namespace Files

/-- The names of a path written with slashes. -/
def names (path : String) : FilePath :=
  let parts := (path.split (· == '/')).toList.map fun part => part.toString
  parts.filter fun name => name != "" && name != "."

/-- One name further, up or down. -/
def Place.go (place : Place) (name : String) : Place :=
  match place, name with
  | .within [], ".." => .above 1
  | .within names, ".." => .within names.dropLast
  | .within names, _ => .within (names ++ [name])
  | .above levels, ".." => .above (levels + 1)
  | .above levels, _ => .above levels

/-- The place that a path leads to from the root directory. -/
def place (path : FilePath) : Place := path.foldl Place.go (.within [])

/-- The text of a path in messages. -/
def shown (path : FilePath) : String := "/".intercalate ("<ROOT>" :: path)

/-- Whether there is a directory: it is one itself, or something lies in it. -/
def isDirectory (files : Files) (names : FilePath) : Bool :=
  names.isEmpty || files.entries.any fun entry =>
    names.isPrefixOf entry.1 && (match entry.2 with
      | .directory => true
      | .file _ => names != entry.1)

/-- What a path leads to, name by name: every name but the last has to lead to a directory. -/
def reach? (files : Files) : FilePath → FilePath → Option FilePath
  | here, [] => some here
  | here, name :: rest =>
    if !files.isDirectory here then none
    else if name != ".." then reach? files (here ++ [name]) rest
    else if here.isEmpty then none
    else reach? files here.dropLast rest

/-- The file at a path: its text, if it is UTF-8. -/
def file? (files : Files) (path : FilePath) : Option (Option Chars) :=
  match (files.reach? [] path).bind fun names => files.entries.lookup names with
  | some (.file text) => some text
  | _ => none

/-- The places of a search that starts in a directory: the directory and all those above it. -/
def upward (path : FilePath) : List FilePath :=
  ((List.range (path.length + 1)).map fun n => path.take n).reverse

/-- The last name of a path. -/
def lastName (path : FilePath) : String := path.getLast?.getD ""

/-- The ending of a name from its last period on, if something stands on both sides of it. -/
def suffix (path : FilePath) : Chars :=
  let name := (lastName path).toList
  let tail := (name.reverse.takeWhile (· != '.')).reverse
  let head := name.take (name.length - tail.length - 1)
  if name.contains '.' && !head.isEmpty && !tail.isEmpty then '.' :: tail else []

end Files

end Downmark
