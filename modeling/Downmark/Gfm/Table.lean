import Downmark.CommonMark.Block
/-!
Pipe tables. A table needs a heading row: any row of a table head, or a first row whose cells are
all heading cells. Each cell writes the bars around it, each row its line, and the heading row the
line of borders below it.
-/

set_option autoImplicit false

namespace Downmark.Gfm

def isCell {μ : Type} (n : Node μ) : Bool := n.isNamed "th" || n.isNamed "td"

/-- The cells of a row. -/
def cells {μ : Type} (row : Node μ) : List (Node μ) := row.kids.filter isCell

/-- Whether a row is the heading row of a table. -/
def isHeadingRow (row : Site) : Bool :=
  match row.path with
  | step :: above =>
    if !step.head.isElement then false
    else if step.head.tag == "thead" then true
    else if !step.isFirstElement then false
    else
      let inFirstBody := step.head.tag == "tbody" &&
        match above with
        | table :: _ => table.head.isElement && table.isFirstElement
        | [] => false
      (step.head.tag == "table" || inFirstBody) &&
        !(cells row.node).isEmpty && (cells row.node).all (Node.isNamed "th")
  | [] => false

/-- The first row among some sites in document order; rows of a nested table do not count. -/
def firstRowAmong : List Site → Option Site
  | [] => none
  | site :: rest =>
    if site.node.isNamed "table" then none
    else if site.node.isNamed "tr" then some site
    else firstRowAmong rest

/-- The first row of a table. -/
def firstRow (table : Site) : Option Site := firstRowAmong table.all.tail

/-- Whether a table has a heading row. -/
def hasHeading (table : Site) : Bool :=
  match firstRow table with
  | some row => isHeadingRow row
  | none => false

def isPipeTable (site : Site) : Bool := site.node.isNamed "table" && hasHeading site

def isPlainTable (site : Site) : Bool := site.node.isNamed "table" && !hasHeading site

/-- A cell with the bar after it, and before it if it is the first of its row. -/
def barred (first : Bool) (content : Chars) : Chars :=
  (if first then ['|', ' '] else [' ']) ++ content ++ [' ', '|']

/-- Whether a cell has no cell before it in its row. -/
def isFirstCell (site : Site) : Bool :=
  match site.path with
  | step :: _ =>
    if step.head.isElement then step.listed && !step.before.any isCell else true
  | [] => true

/-- The content of a cell on one line, bars escaped. -/
def cellText (content : Chars) : Chars :=
  Text.backslash ['|'] (Text.strip (Text.replaceChar '\n' [' '] content))

def cell : Replacement := .ofFunction fun content site _ _ =>
  barred (isFirstCell site) (cellText content)

/-- The border below a heading cell. -/
def border (align : Chars) : Chars :=
  match String.ofList (Text.lower align) with
  | "left" => ":--".toList
  | "right" => "--:".toList
  | "center" => ":-:".toList
  | _ => "---".toList

/-- The borders below the cells of a row. -/
def borders {μ : Type} : Bool → List (Node μ) → Chars
  | _, [] => []
  | first, n :: rest => barred first (border (n.attr "align")) ++ borders false rest

/-- A row on a line of its own, and the borders below a heading row. -/
def row : Replacement := .ofFunction fun content site _ _ =>
  '\n' :: content ++
    (if isHeadingRow site then '\n' :: borders true (cells site.node) else [])

/-- Every two newlines in a row, from left to right, become one. -/
def halveNewlines : Chars → Chars
  | '\n' :: '\n' :: s => '\n' :: halveNewlines s
  | c :: s => c :: halveNewlines s
  | [] => []

/-- Rows already end their own lines. -/
def table : Replacement := .ofFunction fun content _ _ _ => Block.apart (halveNewlines content)

def tableSection : Replacement := .ofFunction fun content _ _ _ => content

end Downmark.Gfm
