import Downmark.Node.Classes
/-!
A node together with its surroundings: the containers above it, and its place in each.

Rules look at sites, since what an element means may depend on where it stands. A node that was put
into a list of children without being told of its container has no surroundings, and one that was
taken out of the list still has its container above it, but no place there.
-/

set_option autoImplicit false

namespace Downmark

/-- What is noted on a node. -/
structure Mark where
  /-- The node knows the container that lists it. -/
  adopted : Bool := true
  /-- The text of a text node after white space was collapsed. -/
  shown : Option Chars := none
  /-- The element renders to nothing. -/
  blank : Bool := false
  /-- The marker of an item of a list. -/
  marker : Option Chars := none
deriving Inhabited

/-- A node on which something may be noted. -/
abbrev Marked := Node Mark

/-- A container without its children. -/
inductive Head where
  | element (mark : Mark) (tag : String) (attrs : Attrs)
  | document (mark : Mark)

namespace Head

def tag : Head → String
  | .element _ t _ => t
  | .document _ => ""

def isElement : Head → Bool
  | .element .. => true
  | .document _ => false

/-- The container with children. -/
def close (head : Head) (kids : List Marked) : Marked :=
  match head with
  | .element m t a => .element m t a kids
  | .document m => .document m kids

end Head

/-- A container above a node, and the place of the node in it. -/
structure Step where
  head : Head
  /-- The children before the node, nearest first. -/
  before : List Marked
  /-- The children after the node. -/
  after : List Marked
  /-- The node is among the children. If it is not, all children stand after it. -/
  listed : Bool := true

namespace Step

/-- The children of the container. -/
def kids (step : Step) (n : Marked) : List Marked :=
  if step.listed then step.before.reverse ++ n :: step.after else step.after

/-- Whether the node is the first element among the children. -/
def isFirstElement (step : Step) : Bool := step.listed && !step.before.any Node.isElement

/-- Whether the node is the last element among the children. -/
def isLastElement (step : Step) : Bool := step.listed && !step.after.any Node.isElement

end Step

/-- A node and its surroundings, the nearest container first. -/
structure Site where
  node : Marked
  path : List Step := []

namespace Site

def tag (site : Site) : String := site.node.tag

/-- The nearest container with its place. -/
def step? (site : Site) : Option Step := site.path.head?

/-- The name of the nearest container, if it is an element. -/
def parentTag? (site : Site) : Option String :=
  match site.path with
  | { head := .element _ t _, .. } :: _ => some t
  | _ => none

/-- Whether the nearest container is an element of that name. -/
def isIn (name : String) (site : Site) : Bool := site.parentTag? == some name

/-- The nearest container as a site. -/
def parent? (site : Site) : Option Site :=
  match site.path with
  | [] => none
  | step :: rest => some ⟨step.head.close (step.kids site.node), rest⟩

/-- Whether one of the containers above has one of these names. -/
def hasAncestor (names : List String) (site : Site) : Bool :=
  site.path.any fun step => names.contains step.head.tag

/-- Whether a site is a code element or lies in one. -/
def isCode (site : Site) : Bool := site.node.isNamed "code" || site.hasAncestor ["code"]

/-- The siblings that are reached by going on to the next one. A node that does not know its
container ends the chain. -/
def chain : List Marked → List Marked
  | [] => []
  | n :: rest => n :: (if n.mark.adopted then chain rest else [])

/-- The siblings after a node. -/
def following (site : Site) : List Marked :=
  match site.path with
  | [] => []
  | step :: _ => if step.listed then chain step.after else []

/-- The surroundings of a child. -/
def pathTo (head : Head) (path : List Step) (before after : List Marked) (n : Marked) : List Step :=
  if n.mark.adopted then ⟨head, before, after, true⟩ :: path else []

mutual

/-- The sites of a tree in document order. -/
def within (path : List Step) : Marked → List Site
  | .text m data => [⟨.text m data, path⟩]
  | .comment m data => [⟨.comment m data, path⟩]
  | .element m t a ks => ⟨.element m t a ks, path⟩ :: among (.element m t a) path [] ks
  | .document m ks => ⟨.document m ks, path⟩ :: among (.document m) path [] ks

/-- The sites of the remaining children of a container, in document order. -/
def among (head : Head) (path : List Step) (before : List Marked) : List Marked → List Site
  | [] => []
  | n :: rest =>
    within (pathTo head path before rest n) n ++ among head path (n :: before) rest

end

/-- The site itself and all sites below it, in document order. -/
def all (site : Site) : List Site := within site.path site.node

/-- The site at the root of a tree. -/
def ofTree {μ : Type} (n : Node μ) : Site := ⟨n.mapMarks fun _ => {}, []⟩

/-- The first element of that name below a site. -/
def find? (name : String) (site : Site) : Option Site :=
  site.all.tail.find? fun below => below.node.isNamed name

end Site

end Downmark
