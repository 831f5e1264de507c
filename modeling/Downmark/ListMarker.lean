import Downmark.Options.Basic
import Downmark.Node.Site
import Downmark.Text.Integer
/-!
Markers of list items: a bullet, or a number that counts on from the start of the list.
-/

set_option autoImplicit false

namespace Downmark.ListMarker

/-- The number of the first item: what the attribute says, or one if it says no number. -/
def start (attrs : Attrs) : Int := ((attrs.lookup "start").bind Text.int?).getD 1

/-- The marker of an item with a number. -/
def numbered (n : Int) : Chars := Text.ofInt n ++ ['.', ' ']

/-- The marker of an item without a number. -/
def bullet (o : Options) : Chars := [o.bulletMarker.char, ' ']

/-- Items among some children. -/
def countItems {μ : Type} (ks : List (Node μ)) : Nat := ks.countP (Node.isNamed "li")

/-- The markers of the items of a list, in order. -/
def ofList {μ : Type} (o : Options) (n : Node μ) : List Chars :=
  let count := countItems n.kids
  if n.tag == "ol" then (List.range count).map fun (i : Nat) => numbered (start n.attrs + (i : Int))
  else List.replicate count (bullet o)

/-- The marker of a single element. Whatever is not among the items of its numbered list, an
element of another name or an item that has been taken out, counts as the first. -/
def ofItem (o : Options) (site : Site) : Chars :=
  match site.path with
  | { head := .element _ "ol" attrs, before, listed, .. } :: _ =>
    let earlier := if listed && site.node.isNamed "li" then countItems before else 0
    numbered (start attrs + (earlier : Int))
  | _ => bullet o

/-- Whether the last number of a numbered list has more digits than are ever written. -/
def isEndless {μ : Type} (attrs : Attrs) (ks : List (Node μ)) : Bool :=
  let count := countItems ks
  0 < count && (Scalar.int (start attrs + (count : Int) - 1)).isEndless

/-- Whether the numbered list around a single element is such a list. -/
def isEndlessAround (site : Site) : Bool :=
  match site.path with
  | step :: _ =>
    match step.head with
    | .element _ "ol" attrs => isEndless attrs (step.kids site.node)
    | _ => false
  | [] => false

/-- Notes markers on the items among some children, in order. -/
def handOut : List Chars → List Marked → List Marked
  | marker :: markers, .element m "li" a ks :: rest =>
    .element { m with marker := some marker } "li" a ks :: handOut markers rest
  | markers, n :: rest => n :: handOut markers rest
  | _, [] => []

mutual

/-- Notes on the items of every list below a root, and of the root, their markers. -/
def mark (o : Options) : Marked → Marked
  | .text m data => .text m data
  | .comment m data => .comment m data
  | .document m ks => .document m (markAll o ks)
  | .element m t a ks =>
    let marked := markAll o ks
    .element m t a (if isListTag t then handOut (ofList o (.element m t a ks)) marked else marked)

def markAll (o : Options) : List Marked → List Marked
  | [] => []
  | n :: rest => mark o n :: markAll o rest

end

end Downmark.ListMarker
