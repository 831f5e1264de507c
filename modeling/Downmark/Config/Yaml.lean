import Downmark.Config.Yaml.Node
/-!
Reading YAML: the value of the node that a document is.

Mappings are merged into others under a key of their own, keys that count as the same number are one
key, and only scalars are keys. Collections are gone through level by level, so of two flaws the one
at the lesser depth is found, and of two at one depth the first.
-/

set_option autoImplicit false

namespace Downmark.Yaml

/-- The entries that a mapping writes itself. The key of a default value is a string. -/
def ownPairs : List (Node × Node) → List (Node × Node)
  | [] => []
  | (k, v) :: rest =>
    match k with
    | .scalar .merge _ => ownPairs rest
    | .scalar .default text => (.scalar .str text, v) :: ownPairs rest
    | k => (k, v) :: ownPairs rest

mutual

/-- The entries of a mapping: those merged into it, and then its own. -/
def entriesOf : Node → Reading (List (Node × Node))
  | .mapping _ pairs => do
    let merged ← mergedInto pairs
    pure (merged ++ ownPairs pairs)
  | _ => .error .malformed

/-- The entries that the pairs of a mapping merge into it. -/
def mergedInto : List (Node × Node) → Reading (List (Node × Node))
  | [] => .ok []
  | pair :: rest => do
    let found ← mergedBy pair
    let more ← mergedInto rest
    pure (found ++ more)

/-- The entries that one pair merges: those of a mapping, or of several, the last ones first. -/
def mergedBy : Node × Node → Reading (List (Node × Node))
  | (k, v) =>
    if k.tag == .merge then
      match v with
      | .sequence _ items => do
        let found ← entriesOfEach items
        pure found.reverse.flatten
      | v => entriesOf v
    else .ok []

/-- The entries of each of several mappings. -/
def entriesOfEach : List Node → Reading (List (List (Node × Node)))
  | [] => .ok []
  | n :: rest => do
    let entries ← entriesOf n
    let more ← entriesOfEach rest
    pure (entries :: more)

end

/-- A node is taken for a collection by its tag alone. -/
def Node.isCollection (n : Node) : Bool := n.tag == .sequence || n.tag == .mapping

/-- The scalar of a node that is not taken for a collection. -/
def Node.scalar? : Node → Reading Scalar
  | .scalar tag text => tag.scalar text
  | _ => .error .malformed

/-- Checks a node that is met: it is a scalar that can be read, or a collection to be gone through
later. -/
def meet (n : Node) : Reading (List Node) :=
  if n.isCollection then .ok [n]
  else do
    let _ ← n.scalar?
    pure []

/-- Goes through a collection: the collections in it that are still to be gone through. -/
def expand (n : Node) : Reading (List Node) :=
  match n.tag, n with
  | .sequence, .sequence _ items => do
    let found ← items.mapM meet
    pure found.flatten
  | .mapping, n => do
    let entries ← entriesOf n
    let found ← entries.mapM fun e => do
      let _ ← e.1.scalar?
      meet e.2
    pure found.flatten
  | _, _ => .error .malformed

/-- Goes through collections level by level. -/
def checkLevels : Nat → List Node → Reading Unit
  | 0, _ => .ok ()
  | _ + 1, [] => .ok ()
  | fuel + 1, level => do
    let found ← level.mapM expand
    checkLevels fuel found.flatten

/-- The value of a node. -/
def valueOf : Nat → Node → Reading Value
  | 0, _ => .error .tooDeep
  | fuel + 1, n =>
    if n.tag == .sequence then
      match n with
      | .sequence _ items => do
        let found ← items.mapM (valueOf fuel)
        pure (.list found)
      | _ => .error .malformed
    else if n.tag == .mapping then do
      let entries ← entriesOf n
      let found ← entries.mapM fun e => do
        let k ← e.1.scalar?
        let v ← valueOf fuel e.2
        pure (k, v)
      pure (.dict (ofPairsBy Scalar.agrees found))
    else do
      let s ← n.scalar?
      pure (.scalar s)

/-- The value that a text writes; a text without a document writes null. -/
def read (room : Nat) (s : Chars) : Reading Value := do
  let s := plainNewlines s
  if !s.all isAllowed then .error .malformed
  else
    let ts := tokens s
    match ← Node.ofTokens room ts with
    | none => pure .null
    | some n =>
      let fuel := ts.length + 2
      let first ← meet n
      checkLevels fuel first
      valueOf fuel n

end Downmark.Yaml
