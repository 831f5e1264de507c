import Downmark.Text.Blank
/-!
Document trees: text, comments, elements with attributes and children, and whole documents.

Every node carries a mark of some type. A tree that was just read is marked with nothing
(`Tree`); later stages note on the nodes what they have found out.
-/

set_option autoImplicit false

namespace Downmark

/-- Attributes in document order, by name. -/
abbrev Attrs := List (String × Chars)

/-- A node of a document. -/
inductive Node (μ : Type) where
  | text (mark : μ) (data : Chars)
  | comment (mark : μ) (data : Chars)
  | element (mark : μ) (tag : String) (attrs : Attrs) (kids : List (Node μ))
  | document (mark : μ) (kids : List (Node μ))
deriving Repr, Inhabited

/-- A tree without marks. -/
abbrev Tree := Node Unit

namespace Node

variable {μ ν : Type}

def mark : Node μ → μ
  | .text m _ => m
  | .comment m _ => m
  | .element m _ _ _ => m
  | .document m _ => m

/-- The name of an element. Other nodes have the empty name. -/
def tag : Node μ → String
  | .element _ t _ _ => t
  | _ => ""

def attrs : Node μ → Attrs
  | .element _ _ a _ => a
  | _ => []

def kids : Node μ → List (Node μ)
  | .element _ _ _ ks => ks
  | .document _ ks => ks
  | _ => []

/-- The value of an attribute. -/
def attr? (name : String) (n : Node μ) : Option Chars := n.attrs.lookup name

/-- The value of an attribute, empty if there is none. -/
def attr (name : String) (n : Node μ) : Chars := (n.attr? name).getD []

def isElement : Node μ → Bool
  | .element .. => true
  | _ => false

def isComment : Node μ → Bool
  | .comment .. => true
  | _ => false

/-- Whether a node is an element of that name. -/
def isNamed (name : String) : Node μ → Bool
  | .element _ t _ _ => t == name
  | _ => false

/-- The word for the kind of a node in messages. -/
def kind : Node μ → String
  | .text .. => "Text"
  | .comment .. => "Comment"
  | .element .. => "Element"
  | .document .. => "Document"

mutual

/-- All text below a node, in order. Comments have none. -/
def textContent : Node μ → Chars
  | .text _ data => data
  | .comment _ _ => []
  | .element _ _ _ ks => textContents ks
  | .document _ ks => textContents ks

def textContents : List (Node μ) → Chars
  | [] => []
  | n :: rest => textContent n ++ textContents rest

end

mutual

/-- The nodes below a node, in document order. -/
def descendants : Node μ → List (Node μ)
  | .text _ _ => []
  | .comment _ _ => []
  | .element _ _ _ ks => forest ks
  | .document _ ks => forest ks

/-- The nodes of some trees, in document order. -/
def forest : List (Node μ) → List (Node μ)
  | [] => []
  | n :: rest => n :: (descendants n ++ forest rest)

end

/-- The first element of that name below a node. -/
def find? (name : String) (n : Node μ) : Option (Node μ) := n.descendants.find? (isNamed name)

mutual

/-- How many nodes a tree has. -/
def size : Node μ → Nat
  | .text _ _ => 1
  | .comment _ _ => 1
  | .element _ _ _ ks => 1 + sizes ks
  | .document _ ks => 1 + sizes ks

def sizes : List (Node μ) → Nat
  | [] => 0
  | n :: rest => size n + sizes rest

end

mutual

/-- The same tree with every mark changed. -/
def mapMarks (f : μ → ν) : Node μ → Node ν
  | .text m data => .text (f m) data
  | .comment m data => .comment (f m) data
  | .element m t a ks => .element (f m) t a (mapAllMarks f ks)
  | .document m ks => .document (f m) (mapAllMarks f ks)

def mapAllMarks (f : μ → ν) : List (Node μ) → List (Node ν)
  | [] => []
  | n :: rest => mapMarks f n :: mapAllMarks f rest

end

/-- The element children of a node. -/
def elements (n : Node μ) : List (Node μ) := n.kids.filter isElement

/-- The children that a reader sees: elements, and text that is not white space. -/
def significant (ks : List (Node μ)) : List (Node μ) :=
  ks.filter fun
    | .text _ data => !Text.isBlankText data
    | .element .. => true
    | _ => false

end Node

end Downmark
