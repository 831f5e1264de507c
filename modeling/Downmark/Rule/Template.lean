import Downmark.Node.Markup
import Downmark.CommonMark.Link
/-!
Rules written as data: replacements as templates with holes in braces, and filters as conditions on
an element.
-/

set_option autoImplicit false

namespace Downmark

/-- A piece of a template. -/
inductive Piece where
  | literal (c : Char)
  /-- A name in braces, and what follows it after a colon; `source` is the piece as it was
  written. -/
  | hole (name : String) (argument : Option Chars) (source : Chars)
deriving Repr

abbrev Template := List Piece

namespace Template

def isNameChar (c : Char) : Bool := 'a' ≤ c && c ≤ 'z'

def isArgumentChar (c : Char) : Bool := c != '\x7b' && c != '\x7d'

/-- The hole that a text begins with, after its opening brace: name, argument and length. -/
def hole? (s : Chars) : Option (Chars × Option Chars × Nat) :=
  let name := s.takeWhile isNameChar
  if name.isEmpty then none
  else match s.dropWhile isNameChar with
    | '\x7d' :: _ => some (name, none, name.length + 1)
    | ':' :: rest =>
      let argument := rest.takeWhile isArgumentChar
      match rest.dropWhile isArgumentChar with
      | '\x7d' :: _ => some (name, some argument, name.length + argument.length + 2)
      | _ => none
    | _ => none

/-- Reads the pieces of a text, the first `skip` characters of which belong to a hole already. -/
def piecesFrom : Nat → Chars → Template
  | _, [] => []
  | skip + 1, _ :: s => piecesFrom skip s
  | 0, c :: s =>
    match c == '\x7b', hole? s with
    | true, some (name, argument, n) =>
      .hole (String.ofList name) argument (c :: s.take n) :: piecesFrom n s
    | _, _ => .literal c :: piecesFrom 0 s

/-- The template that a text writes. -/
def ofText (s : Chars) : Template := piecesFrom 0 s

def flag (b : Bool) : Chars := if b then "true".toList else "false".toList

/-- What a hole stands for in a rendering. -/
def fillHole (name : String) (argument : Option Chars) (source content : Chars) (site : Site)
    (o : Options) : Rendering Chars := do
  let s ← get
  match name, argument with
  | "content", _ => pure content
  | "tag", _ => pure site.tag.toList
  | "text", _ => pure site.node.textContent
  | "outer", _ => pure site.node.outerHtml
  | "depth", _ => pure (Text.ofInt s.listDepth)
  | "indent", _ => pure s.blockIndent
  | "code", _ => pure (flag s.inCode)
  | "pre", _ => pure (flag s.inPreformatted)
  | "following", _ => pure (flag (s.hasFollowingContent o site))
  | "attr", some key => pure (site.node.attr (String.ofList key))
  | "option", some field =>
    match Field.ofName? (String.ofList field) with
    | some field =>
      match o.get field with
      | .str text => pure text.toList
      | value => pure value.shown
    | none => pure source
  | "number", some url => Link.ask [] fun references => references.addNumbered url none
  | _, _ => pure source

/-- A template as a replacement. -/
def replacement : Template → Replacement
  | [], _, _, _ => pure []
  | .literal c :: rest, content, site, o => do
    let tail ← replacement rest content site o
    pure (c :: tail)
  | .hole name argument source :: rest, content, site, o => do
    let filled ← fillHole name argument source content site o
    let tail ← replacement rest content site o
    pure (filled ++ tail)

end Template

/-- A replacement that only signals a failure. -/
def Replacement.signal (kind : Signal) (text : String) : Replacement :=
  fun _ _ _ => throw (.signal kind text)

/-- A condition on an element. -/
inductive Condition where
  | raises (text : String)
  | attributeIs (name : String) (v : Value)
  | hasAttribute (name : String)
  | optionIs (field : String) (v : Value)
  | parentIs (tag : String)
  | ancestorIs (tags : List String)
  | always (b : Bool)

/-- Whether an element meets a condition. -/
def Condition.holds : Condition → Predicate
  | .raises text, _, _ => .error (.signal .value text)
  | .attributeIs name v, site, _ =>
    .ok (match site.node.attr? name with
      | some s => v == .str (String.ofList s)
      | none => v == .null)
  | .hasAttribute name, site, _ => .ok (site.node.attr? name).isSome
  | .optionIs field v, _, o =>
    match Field.ofName? field with
    | some field => .ok ((o.get field).agrees v)
    | none => .error (.unknownField field)
  | .parentIs tag, site, _ =>
    .ok (match site.path with
      | step :: _ => step.head.tag == tag
      | [] => false)
  | .ancestorIs tags, site, _ => .ok (site.hasAncestor tags)
  | .always b, _, _ => .ok b

end Downmark
