/-!
Entries of a mapping that keeps the order in which its keys were first written.
-/

set_option autoImplicit false

namespace Downmark

/-- The entries with a value written under a key: a key that counts as the same and is there already
keeps its place and its spelling. -/
def putEntryBy {κ α : Type} (same : κ → κ → Bool) (key : κ) (value : α) :
    List (κ × α) → List (κ × α)
  | [] => [(key, value)]
  | (k, v) :: rest =>
    if same k key then (k, value) :: rest else (k, v) :: putEntryBy same key value rest

/-- The mapping written by some pairs, one after the other, of keys that may count as the same. -/
def ofPairsBy {κ α : Type} (same : κ → κ → Bool) (pairs : List (κ × α)) : List (κ × α) :=
  pairs.foldl (fun entries pair => putEntryBy same pair.1 pair.2 entries) []

/-- The entries with a value written under a key: a key that is there already keeps its place. -/
def putEntry {κ α : Type} [BEq κ] (key : κ) (value : α) (entries : List (κ × α)) : List (κ × α) :=
  putEntryBy (· == ·) key value entries

/-- The mapping written by some pairs, one after the other. -/
def ofPairs {κ α : Type} [BEq κ] (pairs : List (κ × α)) : List (κ × α) := ofPairsBy (· == ·) pairs

end Downmark
