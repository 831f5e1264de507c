import Downmark.Rule.Basic
import Downmark.CommonMark.Code
import Downmark.ListMarker
/-!
Block rules. Each surrounds its output with blank lines; where two outputs meet, the runs of
newlines are merged. List items end in a single newline instead, so items of one list stand on
consecutive lines.
-/

set_option autoImplicit false

namespace Downmark.Block

/-- Output between blank lines. -/
def apart (s : Chars) : Chars := '\n' :: '\n' :: s ++ ['\n', '\n']

def paragraph : Replacement := .ofFunction fun content _ _ _ => apart content

def lineBreak : Replacement := .ofFunction fun _ _ o _ => o.lineBreak.text ++ ['\n']

/-- The level of a heading, by the name of its element. -/
def headingLevel : String → Nat
  | "h1" => 1
  | "h2" => 2
  | "h3" => 3
  | "h4" => 4
  | "h5" => 5
  | _ => 6

/-- A heading on one line. Setext headings are underlined, and exist for the first two levels
only. -/
def headingText (style : HeadingStyle) (level : Nat) (content : Chars) : Chars :=
  let text := Text.oneSpaced content
  if style = .setext && level < 3 then
    text ++ '\n' :: List.replicate (Text.displayWidth text) (if level == 1 then '=' else '-')
  else List.replicate level '#' ++ ' ' :: text

def heading : Replacement := .ofFunction fun content site o _ =>
  apart (headingText o.headingStyle (headingLevel site.tag) content)

/-- A line of a quote. -/
def quoteLine (line : Chars) : Chars :=
  if Text.isBlankText line then ['>'] else '>' :: ' ' :: line

def quoteText (content : Chars) : Chars :=
  Text.unlines ((Text.lines (Text.trim Text.isNewline content)).map quoteLine)

def blockquote : Replacement := .ofFunction fun content _ _ _ => apart (quoteText content)

/-- A list that ends a list item follows it on the next line. -/
def list : Replacement := .ofFunction fun content site _ _ =>
  match site.path with
  | step :: _ =>
    if step.head.tag == "li" && step.isLastElement then '\n' :: content else apart content
  | [] => apart content

/-- Indents every line after the first that is not empty. -/
def indentLines (content indent : Chars) : Chars :=
  match Text.lines content with
  | [] => []
  | first :: rest =>
    Text.unlines (first :: rest.map fun line => if line.isEmpty then line else indent ++ line)

/-- No newlines at the start, and at most one at the end. -/
def oneFinalNewline (content : Chars) : Chars :=
  let core := Text.trimStart Text.isNewline content
  if core.getLast? == some '\n' then Text.trimEnd Text.isNewline core ++ ['\n'] else core

/-- The marker of an item, noted or worked out anew. -/
def markerOf (o : Options) (site : Site) : Chars :=
  site.node.mark.marker.getD (ListMarker.ofItem o site)

/-- An item behind its marker, its later lines indented to line up under the first. -/
def itemText (marker content : Chars) : Chars :=
  marker ++ indentLines (oneFinalNewline content) (Text.spaces marker.length)

def listItem : Replacement := .ofFunction fun content site o s =>
  let item := itemText (markerOf o site) content
  if s.hasFollowingContent o site && item.getLast? != some '\n' then item ++ ['\n'] else item

def indentedCode : Replacement := fun _ site _ => do
  match Code.blockText site.node with
  | .ok code => pure (apart (Code.indented code))
  | .error failure => throw failure

def fencedCode : Replacement := fun _ site o => do
  match Code.blockText site.node, Code.language site.node with
  | .ok code, .ok info => pure (apart (Code.fenced o.fence.char info code))
  | .error failure, _ => throw failure
  | _, .error failure => throw failure

def preformatted : Replacement := .ofFunction fun content _ _ _ =>
  apart (Text.trim Text.isNewline content)

def thematicBreak : Replacement := .ofFunction fun _ _ o _ =>
  let c := o.thematicBreak.char
  apart [c, ' ', c, ' ', c]

end Downmark.Block
