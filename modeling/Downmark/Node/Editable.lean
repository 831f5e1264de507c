import Downmark.Node.Draft
import Downmark.Node.Site
/-!
Trees that are edited in place: every node is a cell with a number, its children in a list, the
container that it was told of, and the place it had there.

A list of children may be edited without telling anybody. The recorded place is only a hint: it is
used if the node still stands there, and looked up again if not.
-/

set_option autoImplicit false

namespace Downmark

/-- What a cell holds besides its children. -/
inductive Content where
  | text (data : Value)
  | comment (data : Value)
  | element (name : Value) (attrs : Attrs)
  | document

structure Cell where
  content : Content
  kids : List Nat := []
  /-- The container that the node was told of. -/
  parent : Option Nat := none
  /-- The place that the node had when it was last looked for. -/
  place : Nat := 0

/-- Cells by number. -/
structure Editable where
  cells : Array Cell := #[]

namespace Editable

def get? (e : Editable) (id : Nat) : Option Cell := e.cells[id]?

/-- Changes a cell. -/
def update (e : Editable) (id : Nat) (f : Cell → Cell) : Editable := ⟨e.cells.modify id f⟩

def kids (e : Editable) (id : Nat) : List Nat := ((e.get? id).map Cell.kids).getD []

def parent? (e : Editable) (id : Nat) : Option Nat := (e.get? id).bind Cell.parent

/-- The name of an element. -/
def tag (e : Editable) (id : Nat) : String :=
  match (e.get? id).map Cell.content with
  | some (.element (.str name) _) => name
  | _ => ""

def isElement (e : Editable) (id : Nat) : Bool :=
  match (e.get? id).map Cell.content with
  | some (.element ..) => true
  | _ => false

def isContainer (e : Editable) (id : Nat) : Bool :=
  match (e.get? id).map Cell.content with
  | some (.element ..) => true
  | some .document => true
  | _ => false

/-- A name in lower case, if it is one. -/
def lowered : Value → Value
  | .str s => .str (String.ofList (Text.lower s.toList))
  | v => v

mutual

/-- Adds the cells of a draft, numbered in document order, and the number of its root. A child
that is no node cannot be given a number. -/
def plant (e : Editable) (parent : Option Nat) (place : Nat) : Draft → Option (Nat × Editable)
  | .text data => some (e.cells.size, ⟨e.cells.push { content := .text data, parent, place }⟩)
  | .comment data => some (e.cells.size, ⟨e.cells.push { content := .comment data, parent, place }⟩)
  | .element name attrs ks => do
    let id := e.cells.size
    let cell := { content := .element (lowered name) attrs, parent, place }
    let (ids, e) ← plantAll ⟨e.cells.push cell⟩ id 0 ks
    pure (id, e.update id fun c => { c with kids := ids })
  | .document ks => do
    let id := e.cells.size
    let (ids, e) ← plantAll ⟨e.cells.push { content := .document, parent, place }⟩ id 0 ks
    pure (id, e.update id fun c => { c with kids := ids })
  | .stray _ => none

def plantAll (e : Editable) (parent place : Nat) : List Draft → Option (List Nat × Editable)
  | [] => some ([], e)
  | d :: rest => do
    let (id, e) ← plant e (some parent) place d
    let (ids, e) ← plantAll e parent (place + 1) rest
    pure (id :: ids, e)

end

/-- The editable form of a draft; its root has the number zero. -/
def ofDraft? (d : Draft) : Option Editable := (plant {} none 0 d).map (·.2)

/-- Tells a node of its container and of its place there. -/
def attach (e : Editable) (parent child place : Nat) : Editable :=
  e.update child fun c => { c with parent := some parent, place }

/-- Tells nodes of their container and of their places there, which start at `place`. -/
def adopt (e : Editable) (parent place : Nat) : List Nat → Editable
  | [] => e
  | child :: rest => adopt (e.attach parent child place) parent (place + 1) rest

/-- A new node around nodes that may be there already, and have had another container till now. Only
containers have children. -/
def build (e : Editable) (content : Content) (ks : List Nat) : Nat × Editable :=
  let id := e.cells.size
  match content with
  | .element name attrs =>
    (id, adopt ⟨e.cells.push { content := .element (lowered name) attrs, kids := ks }⟩ id 0 ks)
  | .document => (id, adopt ⟨e.cells.push { content := .document, kids := ks }⟩ id 0 ks)
  | leaf => (id, ⟨e.cells.push { content := leaf }⟩)

/-- Changes the list of children of a container and tells nobody. Other nodes have none. -/
def edit (e : Editable) (id : Nat) (f : List Nat → List Nat) : Option Editable :=
  if e.isContainer id then some (e.update id fun c => { c with kids := f c.kids }) else none

/-- Puts a node behind the children of a container and tells it of its place. -/
def appendChild (e : Editable) (id child : Nat) : Option Editable := do
  let place := (e.kids id).length
  let e ← e.edit id fun ks => ks ++ [child]
  pure (e.attach id child place)

/-- Adds a new last child. -/
def append (e : Editable) (id : Nat) (child : Draft) : Option (Nat × Editable) := do
  let (new, e) ← plant e none 0 child
  let e ← e.appendChild id new
  pure (new, e)

/-- A place in a list as it is meant: negative places count from the end, and places past an end
mean that end. -/
def clamp (place : Int) (length : Nat) : Nat :=
  if place < 0 then ((length : Int) + place).toNat else min place.toNat length

/-- A list with an element put at a place. -/
def insertAt {α : Type} (place : Nat) (x : α) (xs : List α) : List α :=
  xs.take place ++ x :: xs.drop place

/-- Puts a node into a list of children and tells it nothing. -/
def insertChild (e : Editable) (id : Nat) (place : Int) (child : Nat) : Option Editable :=
  e.edit id fun ks => insertAt (clamp place ks.length) child ks

/-- Puts a new child into a list of children and tells it nothing. -/
def insert (e : Editable) (id : Nat) (place : Int) (child : Draft) : Option (Nat × Editable) := do
  let (new, e) ← plant e none 0 child
  let e ← e.insertChild id place new
  pure (new, e)

/-- The place in a list that a number means, if there is one. -/
def placeIn? (place : Int) (length : Nat) : Option Nat :=
  let n := if place < 0 then (length : Int) + place else place
  if 0 ≤ n && n < (length : Int) then some n.toNat else none

/-- Takes a child out of the list of children and tells it nothing. -/
def take (e : Editable) (id : Nat) (place : Int) : Option (Nat × Editable) := do
  let ks := e.kids id
  let n ← placeIn? place ks.length
  let child ← ks[n]?
  let e ← e.edit id fun ks => ks.eraseIdx n
  pure (child, e)

/-- Takes a child out of the list of children and puts it back at another place. -/
def move (e : Editable) (id : Nat) (place target : Int) : Option Editable := do
  let (child, e) ← e.take id place
  e.insertChild id target child

/-- A container that is gone: the nodes that were told of it have none from now on. -/
def forget (e : Editable) (id : Nat) : Editable :=
  ⟨e.cells.map fun c => if c.parent = some id then { c with parent := none } else c⟩

/-- The place of a node among the children of its container: the recorded one if the node stands
there, and else the first at which it does. -/
def findPlace (ks : List Nat) (id hint : Nat) : Option Nat :=
  if ks[hint]? == some id then some hint else ks.idxOf? id

/-- The sibling right before or right after a node. The place that was found is recorded. -/
def sibling (e : Editable) (id : Nat) (after : Bool) : Option Nat × Editable :=
  match e.get? id with
  | none => (none, e)
  | some cell =>
    match cell.parent with
    | none => (none, e)
    | some parent =>
      let ks := e.kids parent
      match findPlace ks id cell.place with
      | none => (none, e)
      | some n =>
        let found := if after then ks[n + 1]? else if n == 0 then none else ks[n - 1]?
        (found, e.update id fun c => { c with place := n })

/-- The containers above a node, nearest first; at most `fuel` of them. -/
def ancestorsWithin (e : Editable) : Nat → Nat → List Nat
  | 0, _ => []
  | fuel + 1, id =>
    match e.parent? id with
    | none => []
    | some parent => parent :: ancestorsWithin e fuel parent

def ancestors (e : Editable) (id : Nat) : List Nat := e.ancestorsWithin e.cells.size id

def hasAncestor (e : Editable) (id : Nat) (tags : List String) : Bool :=
  (e.ancestors id).any fun a => tags.contains (e.tag a)

/-- The draft at a node, down to a depth of `fuel`. -/
def draftWithin (e : Editable) : Nat → Nat → Draft
  | 0, _ => .stray .null
  | fuel + 1, id =>
    match e.get? id with
    | none => .stray .null
    | some cell =>
      match cell.content with
      | .text data => .text data
      | .comment data => .comment data
      | .element name attrs => .element name attrs (cell.kids.map (draftWithin e fuel))
      | .document => .document (cell.kids.map (draftWithin e fuel))

def draft (e : Editable) (id : Nat) : Draft := e.draftWithin (e.cells.size + 1) id

/-- The numbers of the nodes below some nodes, in document order, down to a depth of `fuel`. -/
def belowWithin (e : Editable) : Nat → List Nat → List Nat
  | 0, _ => []
  | fuel + 1, ids => ids.flatMap fun id => id :: belowWithin e fuel (e.kids id)

def descendants (e : Editable) (id : Nat) : List Nat :=
  e.belowWithin (e.cells.size + 1) (e.kids id)

/-- The sound tree at a node, down to a depth of `fuel`, each node marked with whether it knows its
container. -/
def markedWithin (e : Editable) : Nat → Nat → Marked
  | 0, _ => .text {} []
  | fuel + 1, id =>
    match e.get? id with
    | none => .text {} []
    | some cell =>
      let mark : Mark := { adopted := cell.parent.isSome }
      match cell.content with
      | .text (.str s) => .text mark s.toList
      | .comment (.str s) => .comment mark s.toList
      | .element (.str name) attrs => .element mark name attrs (cell.kids.map (markedWithin e fuel))
      | .document => .document mark (cell.kids.map (markedWithin e fuel))
      | _ => .text mark []

def marked (e : Editable) (id : Nat) : Marked := e.markedWithin (e.cells.size + 1) id

/-- The surroundings of a node, as far as `fuel` reaches. -/
def pathWithin (e : Editable) : Nat → Nat → List Step
  | 0, _ => []
  | fuel + 1, id =>
    match e.parent? id with
    | none => []
    | some parent =>
      match e.get? parent with
      | none => []
      | some cell =>
        let mark : Mark := { adopted := cell.parent.isSome }
        let head : Head := match cell.content with
          | .element (.str name) attrs => .element mark name attrs
          | _ => .document mark
        let above := pathWithin e fuel parent
        let ks := cell.kids
        match ks.idxOf? id with
        | some n =>
          ⟨head, ((ks.take n).map e.marked).reverse, (ks.drop (n + 1)).map e.marked, true⟩ :: above
        | none => ⟨head, [], ks.map e.marked, false⟩ :: above

/-- A node with its surroundings. -/
def site (e : Editable) (id : Nat) : Site := ⟨e.marked id, e.pathWithin e.cells.size id⟩

end Editable

end Downmark
