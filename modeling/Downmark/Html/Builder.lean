import Downmark.Html.Token
import Downmark.Node.Basic
import Downmark.Entries
/-!
Trees from HTML. No element is closed by another one's start: an end tag closes all open elements up
to the nearest one of its name, and does nothing if there is none.
-/

set_option autoImplicit false

namespace Downmark.Html

/-- An element that is still open. -/
structure OpenElement where
  tag : String
  attrs : Attrs
  /-- The children so far, last one first. -/
  kids : List Tree := []

/-- A tree that is being built. -/
structure Builder where
  /-- The open elements, innermost first. -/
  opened : List OpenElement := []
  /-- The children of the document so far, last one first. -/
  top : List Tree := []
  /-- Text that no markup has ended yet. -/
  pending : Option Chars := none
  /-- Void elements that were closed at once and whose end tag may still come. -/
  owed : List String := []

namespace Builder

/-- White space as text nodes, comments and declarations are tested for it. -/
def isPlainSpace (c : Char) : Bool := c == ' ' || c == '\n' || c == '\t' || c == '\x0c' || c == '\r'

/-- Data made of white space only becomes one newline or one space. -/
def shrink (s : Chars) : Chars :=
  if s.all isPlainSpace then (if s.contains '\n' then ['\n'] else [' ']) else s

/-- Adds a node to the innermost open element. -/
def add (b : Builder) (n : Tree) : Builder :=
  match b.opened with
  | [] => { b with top := n :: b.top }
  | inner :: outer => { b with opened := { inner with kids := n :: inner.kids } :: outer }

/-- Adds more text to the pending text. -/
def text (b : Builder) (s : Chars) : Builder := { b with pending := some (b.pending.getD [] ++ s) }

/-- Whether white space is kept as it is. -/
def keepsSpace (b : Builder) : Bool := b.opened.any fun e => spaceNames.contains e.tag

/-- Ends the pending text, which becomes the node that `make` gives. -/
def finishWith (b : Builder) (make : Chars → Option Tree) : Builder :=
  match b.pending with
  | none => b
  | some s =>
    let data := if b.keepsSpace then s else shrink s
    let b := { b with pending := none }
    match make data with
    | some n => b.add n
    | none => b

/-- Ends the pending text, which becomes a text node. -/
def finishText (b : Builder) : Builder := b.finishWith fun s => some (.text () s)

/-- Closes the innermost open element. -/
def closeInner (b : Builder) : Builder :=
  match b.opened with
  | [] => b
  | inner :: outer =>
    { b with opened := outer }.add (.element () inner.tag inner.attrs inner.kids.reverse)

/-- Closes open elements up to and including the nearest one of a name; at most `fuel` of them. -/
def closeUpTo (tag : String) : Nat → Builder → Builder
  | 0, b => b
  | fuel + 1, b =>
    match b.opened with
    | [] => b
    | inner :: _ => if inner.tag == tag then b.closeInner else closeUpTo tag fuel b.closeInner

/-- What an end tag does to the open elements. -/
def close (b : Builder) (tag : String) : Builder :=
  let b := b.finishText
  if b.opened.any fun e => e.tag == tag then closeUpTo tag b.opened.length b else b

/-- Whether an attribute of an element holds a list of words. -/
def holdsWords (tag name : String) : Bool :=
  wordAttributes.contains name || ((wordAttributesOf.lookup tag).getD []).contains name

/-- The attributes of an element: a repeated one keeps its first place and takes its last value, and
lists of words have one space between two words. -/
def readAttrs (tag : String) (attrs : List (String × Chars)) : Attrs :=
  (ofPairs attrs).map fun a => (a.1, if holdsWords tag a.1 then Text.oneSpaced a.2 else a.2)

/-- An end tag; one that is owed to a void element has no other effect. -/
def endTag (b : Builder) (tag : String) : Builder :=
  if b.owed.contains tag then { b with owed := b.owed.erase tag } else b.close tag

/-- A start tag. -/
def startTag (b : Builder) (tag : String) (attrs : List (String × Chars)) (selfClosed : Bool) :
    Builder :=
  let b := b.finishText
  let b := { b with opened := { tag, attrs := readAttrs tag attrs } :: b.opened }
  if selfClosed then b.endTag tag
  else if voidNames.contains tag then { b.close tag with owed := tag :: b.owed }
  else b

def token (b : Builder) : Token → Builder
  | .text s => b.text s
  | .startTag tag attrs selfClosed => b.startTag tag attrs selfClosed
  | .endTag tag => b.endTag tag
  | .comment data => (b.finishText.text data).finishWith fun s => some (.comment () s)
  | .cdata data => (b.finishText.text data).finishText
  | .declaration => b.finishText

/-- The document, all open elements being closed. -/
def finish (b : Builder) : Tree :=
  let b := b.finishText
  let b := b.opened.foldl (fun b _ => b.closeInner) b
  .document () b.top.reverse

end Builder

/-- The document that a text of HTML describes. -/
def read (s : Chars) : Tree := ((tokens s).foldl Builder.token {}).finish

end Downmark.Html
