import Downmark.Node.Basic
import Downmark.Text.Case
import Downmark.Failure
/-!
Trees as callers build them, before they are checked: any value may stand where text or a name
belongs, and a child may be no node at all.

Checking gives a tree, or the first flaw, parents being looked at before children and later
children before earlier ones.
-/

set_option autoImplicit false

namespace Downmark

inductive Draft where
  | text (data : Value)
  | comment (data : Value)
  | element (name : Value) (attrs : Attrs) (kids : List Draft)
  | document (kids : List Draft)
  /-- A child that is no node. -/
  | stray (value : Value)
deriving Inhabited

namespace Draft

/-- The word for the kind of a draft in messages. -/
def kind : Draft → String
  | .text _ => "Text"
  | .comment _ => "Comment"
  | .element .. => "Element"
  | .document _ => "Document"
  | .stray value => value.kind

/-- The text that a text or comment node holds. -/
def checkData (holder : String) : Value → Except Malformed Chars
  | .str s => .ok s.toList
  | v => .error (.data holder v)

/-- The name of an element, in lower case. -/
def checkName : Value → Except Malformed String
  | .str s => if s.isEmpty then .error .nameless else .ok (String.ofList (Text.lower s.toList))
  | _ => .error .nameless

mutual

/-- The tree that a draft describes, or its first flaw. -/
def check : Draft → Except Malformed Tree
  | .text data => do
    let s ← checkData "Text" data
    pure (.text () s)
  | .comment data => do
    let s ← checkData "Comment" data
    pure (.comment () s)
  | .element name attrs kids => do
    let tag ← checkName name
    let ks ← checkAll kids
    pure (.element () tag attrs ks)
  | .document kids => do
    let ks ← checkAll kids
    pure (.document () ks)
  | .stray value => .error (.stray value)

def checkAll : List Draft → Except Malformed (List Tree)
  | [] => .ok []
  | d :: rest => do
    let ks ← checkAll rest
    let k ← check d
    pure (k :: ks)

end

mutual

/-- The draft that describes a tree. -/
def ofTree : Tree → Draft
  | .text _ data => .text (.str (String.ofList data))
  | .comment _ data => .comment (.str (String.ofList data))
  | .element _ tag attrs kids => .element (.str tag) attrs (ofTrees kids)
  | .document _ kids => .document (ofTrees kids)

def ofTrees : List Tree → List Draft
  | [] => []
  | n :: rest => ofTree n :: ofTrees rest

end

end Draft

end Downmark
