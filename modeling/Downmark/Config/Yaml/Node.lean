import Downmark.Config.Yaml.Tag
import Downmark.Config.Yaml.Token
/-!
The node that a YAML document is: scalars, sequences and mappings, each with a tag. Aliases are
replaced by the nodes that they stand for.

Reading consumes tokens from the front; an alias sees the anchors of all nodes before it.
-/

set_option autoImplicit false

namespace Downmark.Yaml

inductive Node where
  | scalar (tag : Tag) (text : Chars)
  | sequence (tag : Tag) (items : List Node)
  | mapping (tag : Tag) (pairs : List (Node × Node))

def Node.tag : Node → Tag
  | .scalar tag _ => tag
  | .sequence tag _ => tag
  | .mapping tag _ => tag

/-- The node that stands where nothing is written. -/
def Node.empty : Node := .scalar .null []

/-- A document that is being read. -/
structure Document where
  tokens : List Token
  /-- Nodes by the names of their anchors. -/
  anchors : List (Chars × Node) := []
  /-- What tags begin with, by their handles. -/
  stems : List (Chars × Chars) := []

/-- Reading of a document. -/
abbrev Composing := StateT Document Reading

namespace Composing

/-- The next token, which stays. -/
def peek : Composing (Option Token) := do
  let d ← get
  pure d.tokens.head?

/-- Drops the next token. -/
def drop : Composing Unit := modify fun d => { d with tokens := d.tokens.drop 1 }

/-- The next token is not one that may stand here. -/
def refuse {α : Type} : Composing α := do
  match ← peek with
  | some (.fault why) => throw why
  | _ => throw .malformed

/-- Drops the next token if it is the given one, and says whether it was. -/
def take (t : Token) : Composing Bool := do
  if (← peek) == some t then
    drop
    pure true
  else pure false

/-- Whether the next token is one of some. -/
def isNext (ts : List Token) : Composing Bool := do
  match ← peek with
  | some t => pure (ts.contains t)
  | none => pure false

end Composing

open Composing

/-- Anchor and tag of a node, in any order: the name of the anchor, and handle and rest of the
tag. -/
structure Properties where
  anchor : Option Chars := none
  tag : Option (Option Chars × Chars) := none

/-- The properties before a node. -/
def properties : Nat → Properties → Composing Properties
  | 0, found => pure found
  | fuel + 1, found => do
    match (← peek), found with
    | some (.anchor name), { anchor := none, .. } => do
      drop
      properties fuel { found with anchor := some name }
    | some (.tag handle suffix), { tag := none, .. } => do
      drop
      properties fuel { found with tag := some (handle, suffix) }
    | _, _ => pure found

/-- The whole name of a tag, if it is not the one that leaves the kind open. -/
def tagName (found : Option (Option Chars × Chars)) : Composing (Option Chars) := do
  let name ← match found with
    | none => pure none
    | some (none, suffix) => pure (some suffix)
    | some (some handle, suffix) =>
      match (← get).stems.lookup handle with
      | some stem => pure (some (stem ++ suffix))
      | none => throw .malformed
  pure (if name == some ['!'] then none else name)

/-- Gives a node its anchor, which no other node has. -/
def name (anchor : Option Chars) (n : Node) : Composing Node := do
  match anchor with
  | none => pure n
  | some a =>
    if ((← get).anchors.lookup a).isSome then throw .malformed
    else
      modify fun d => { d with anchors := (a, n) :: d.anchors }
      pure n

/-- The room for nesting that a collection takes. -/
def collectionDepth : Nat := 2

/-- Whether a token opens a collection. -/
def opensCollection (inBlock isValue : Bool) : Option Token → Bool
  | some .flowSequence | some .flowMapping => true
  | some .blockSequence | some .blockMapping => inBlock
  | some .item => isValue
  | _ => false

mutual

/-- A node. `inBlock` says whether it may be a block, `isValue` whether it is the key or the value
of a mapping, where the items of a block need no indentation, and `room` how deep collections may
still go. -/
def node : Nat → Nat → Bool → Bool → Composing Node
  | 0, _, _, _ => throw .tooDeep
  | fuel + 1, room, inBlock, isValue => do
    match ← peek with
    | some (.alias a) => do
      drop
      match (← get).anchors.lookup a with
      | some n => pure n
      | none => throw .malformed
    | _ => do
      let found ← properties 2 {}
      let tag ← tagName found.tag
      let tagged := fun (kind : Tag) => (tag.map Tag.ofName).getD kind
      let t ← peek
      let n ← if opensCollection inBlock isValue t then do
          if room < collectionDepth then throw .tooDeep
          collection fuel (room - collectionDepth) tagged t
        else match t with
        | some (.scalar text isPlain) => do
          drop
          let kind := if tag.isNone && (isPlain || found.tag.isSome) then Tag.ofPlain text else .str
          pure (Node.scalar (tagged kind) text)
        | _ =>
          if found.anchor.isSome || found.tag.isSome then
            pure (Node.scalar (tagged .null) [])
          else refuse
      name found.anchor n

/-- A collection, from the token that opens it. -/
def collection : Nat → Nat → (Tag → Tag) → Option Token → Composing Node
  | 0, _, _, _ => throw .tooDeep
  | fuel + 1, room, tagged, t => do
    match t with
    | some .flowSequence =>
      drop
      let items ← flowItems fuel room true
      pure (Node.sequence (tagged .sequence) items)
    | some .flowMapping =>
      drop
      let pairs ← flowPairs fuel room true
      pure (Node.mapping (tagged .mapping) pairs)
    | some .blockSequence =>
      drop
      let items ← blockItems fuel room
      pure (Node.sequence (tagged .sequence) items)
    | some .blockMapping =>
      drop
      let pairs ← blockPairs fuel room
      pure (Node.mapping (tagged .mapping) pairs)
    | _ =>
      let items ← looseItems fuel room
      pure (Node.sequence (tagged .sequence) items)

/-- The items of a block, up to its end. -/
def blockItems : Nat → Nat → Composing (List Node)
  | 0, _ => throw .tooDeep
  | fuel + 1, room => do
    if ← take .item then
      let n ← if ← isNext [.item, .blockEnd] then pure Node.empty else node fuel room true false
      let rest ← blockItems fuel room
      pure (n :: rest)
    else if ← take .blockEnd then pure []
    else refuse

/-- Items that stand at the indentation of the mapping whose value they are. -/
def looseItems : Nat → Nat → Composing (List Node)
  | 0, _ => throw .tooDeep
  | fuel + 1, room => do
    if ← take .item then
      let n ← if ← isNext [.item, .key, .value, .blockEnd] then pure Node.empty
        else node fuel room true false
      let rest ← looseItems fuel room
      pure (n :: rest)
    else pure []

/-- The entries of a block, up to its end. -/
def blockPairs : Nat → Nat → Composing (List (Node × Node))
  | 0, _ => throw .tooDeep
  | fuel + 1, room => do
    if ← take .key then
      let k ← if ← isNext [.key, .value, .blockEnd] then pure Node.empty
        else node fuel room true true
      let v ← if ← take .value then
          if ← isNext [.key, .value, .blockEnd] then pure Node.empty
          else node fuel room true true
        else pure Node.empty
      let rest ← blockPairs fuel room
      pure ((k, v) :: rest)
    else if ← take .blockEnd then pure []
    else refuse

/-- The items of a flow sequence, up to its end. An item with a colon is a mapping of one entry. -/
def flowItems : Nat → Nat → Bool → Composing (List Node)
  | 0, _, _ => throw .tooDeep
  | fuel + 1, room, isFirst => do
    if ← take .flowSequenceEnd then pure []
    else
      if !isFirst then
        if !(← take .comma) then refuse
      if ← take .flowSequenceEnd then pure []
      else
        let n ← if ← take .key then
            if room < collectionDepth then throw .tooDeep
            let room := room - collectionDepth
            let ends := [Token.comma, .flowSequenceEnd]
            let k ← if ← isNext (.value :: ends) then pure Node.empty
              else node fuel room false false
            let v ← if ← take .value then
                if ← isNext ends then pure Node.empty else node fuel room false false
              else pure Node.empty
            pure (Node.mapping .mapping [(k, v)])
          else node fuel room false false
        let rest ← flowItems fuel room false
        pure (n :: rest)

/-- The entries of a flow mapping, up to its end. -/
def flowPairs : Nat → Nat → Bool → Composing (List (Node × Node))
  | 0, _, _ => throw .tooDeep
  | fuel + 1, room, isFirst => do
    if ← take .flowMappingEnd then pure []
    else
      if !isFirst then
        if !(← take .comma) then refuse
      if ← take .flowMappingEnd then pure []
      else
        let ends := [Token.comma, .flowMappingEnd]
        let pair ← if ← take .key then
            let k ← if ← isNext (.value :: ends) then pure Node.empty
              else node fuel room false false
            let v ← if ← take .value then
                if ← isNext ends then pure Node.empty else node fuel room false false
              else pure Node.empty
            pure (k, v)
          else do
            let k ← node fuel room false false
            pure (k, Node.empty)
        let rest ← flowPairs fuel room false
        pure (pair :: rest)

end

/-- What tags begin with when no directive says so. -/
def defaultStems : List (Chars × Chars) :=
  [(['!'], ['!']), (['!', '!'], Tag.stem.toList)]

/-- The directives before a document: at most one for the version, of the first edition, and one for
each handle. -/
def directives : Nat → Bool → List (Chars × Chars) → Composing (List (Chars × Chars))
  | 0, _, stems => pure stems
  | fuel + 1, isVersioned, stems => do
    match ← peek with
    | some (.directive (.version major)) =>
      if isVersioned || major != 1 then throw .malformed
      else
        drop
        directives fuel true stems
    | some (.directive (.tags handle stem)) =>
      if (stems.lookup handle).isSome then throw .malformed
      else
        drop
        directives fuel isVersioned ((handle, stem) :: stems)
    | some (.directive .other) =>
      drop
      directives fuel isVersioned stems
    | _ => pure stems

/-- The node of a document, unless there is no document. -/
def content (fuel room : Nat) : Composing (Option Node) := do
  match ← peek with
  | none => pure none
  | some (.directive _) | some .documentStart => do
    let stems ← directives fuel false []
    modify fun d => { d with stems := stems ++ defaultStems }
    if ← take .documentStart then
      match ← peek with
      | none | some (.directive _) | some .documentStart | some .documentStop => pure Node.empty
      | _ => node fuel room true false
    else refuse
  | _ => do
    modify fun d => { d with stems := defaultStems }
    let n ← node fuel room true false
    pure n

/-- Drops the marks that close a document. -/
def stops : Nat → Composing Unit
  | 0 => pure ()
  | fuel + 1 => do
    if ← take .documentStop then stops fuel else pure ()

/-- The node of the only document among some tokens, unless there is none. -/
def Node.ofTokens (room : Nat) (ts : List Token) : Reading (Option Node) := do
  let fuel := 3 * ts.length + 3
  let work : Composing (Option Node) := do
    let found ← content fuel room
    stops fuel
    if (← peek).isNone then pure found else refuse
  let (found, _) ← work.run { tokens := ts }
  pure found

end Downmark.Yaml
