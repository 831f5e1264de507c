import Downmark.Render.Join
import Downmark.Rule.Table
import Downmark.Prepared
import Downmark.Escape
import Downmark.Node.Draft
/-!
Rendering by structural recursion.

Each element is classified when it is entered; its children are rendered and joined, and the
replacement of its rule turns the joined content into the Markdown of the element. Comments, and
documents inside of documents, leave nothing.
-/

set_option autoImplicit false

namespace Downmark

/-- What is already written of an element that is still open. -/
structure Open where
  output : Chars
  /-- Nothing before the element stands on its lines: it is a block element, or the root. -/
  isBlock : Bool

namespace Render

/-- What is already written on the current line, across open inline elements, the innermost open
element coming first. -/
def lineSoFar : List Open → Chars
  | [] => []
  | inner :: outer =>
    let tail := Text.ending (· != '\n') inner.output
    if inner.output.contains '\n' || inner.isBlock then tail else lineSoFar outer ++ tail

/-- The Markdown of a text node. -/
def textOutput (s : State) (o : Options) (opened : List Open) (mark : Mark) (data : Chars) :
    Chars :=
  let text := s.textOf o mark data
  if s.inCode then text
  else
    let ahead := if text.head? == some '.' then lineSoFar opened else []
    if s.inPreformatted then Escape.preformatted text ahead else Escape.markdown text ahead

/-- Whether a marker is needed whose number has more digits than are ever written: of a list that is
entered, or of an item whose list is not. -/
def needsEndlessMarker (site : Site) : Bool :=
  match site.node with
  | .element _ "ol" attrs ks => ListMarker.isEndless attrs ks
  | .element m "li" _ _ => m.marker.isNone && ListMarker.isEndlessAround site
  | _ => false

/-- What entering an element changes. -/
def entered (o : Options) (site : Site) : Rendering Unit :=
  modify fun s =>
    match site.tag with
    | "ul" => { s with listDepth := s.listDepth + 1 }
    | "ol" => { s with listDepth := s.listDepth + 1 }
    | "li" => { s with indents := Text.spaces (Block.markerOf o site).length :: s.indents }
    | "blockquote" => { s with indents := ['>', ' '] :: s.indents }
    | "code" => { s with codeDepth := s.codeDepth + 1 }
    | "pre" =>
      if o.preformattedCode then { s with preformattedDepth := s.preformattedDepth + 1 } else s
    | _ => s

/-- Enters an element, unless the marker of an item cannot be written. -/
def enter (o : Options) (site : Site) : Rendering Unit :=
  if needsEndlessMarker site then throw .tooManyDigits else entered o site

/-- Closes the innermost indentation. -/
def outdent : Rendering Unit := do
  let s ← get
  match s.indents with
  | [] => throw .noIndentation
  | _ :: rest => set { s with indents := rest }

/-- What leaving an element changes. -/
def leave (o : Options) (site : Site) : Rendering Unit :=
  match site.tag with
  | "ul" => modify fun s => { s with listDepth := s.listDepth - 1 }
  | "ol" => modify fun s => { s with listDepth := s.listDepth - 1 }
  | "li" => outdent
  | "blockquote" => outdent
  | "code" => modify fun s => { s with codeDepth := s.codeDepth - 1 }
  | "pre" =>
    if o.preformattedCode then
      modify fun s => { s with preformattedDepth := s.preformattedDepth - 1 }
    else pure ()
  | _ => pure ()

/-- Whether the output ends in a gap. -/
def endsInGap (output : Chars) : Bool :=
  match output.getLast? with
  | some c => Text.isGap c
  | none => false

/-- The Markdown of an element whose content is rendered. Gaps at the ends of inline content are
written outside of the replacement, unless there already is one. -/
def replace (rule : Rule) (site : Site) (o : Options) (content preceding : Chars) :
    Rendering Chars := do
  if site.node.isBlock || (o.preformattedCode && site.isCode) then
    rule.replacement content site o
  else
    let (leading, core, trailing) := Whitespace.flanking content
    let s ← get
    let leading := if endsInGap preceding then [] else leading
    let trailing := if !trailing.isEmpty && s.nextStartsWithSpace o site then [] else trailing
    let written ← rule.replacement core site o
    pure (leading ++ written ++ trailing)

/-- The rule for a site, within a rendering. -/
def ruleFor (table : RuleTable) (o : Options) (site : Site) : Rendering Rule :=
  match table.find site o site.node.mark.blank with
  | .ok rule => pure rule
  | .error failure => throw failure

mutual

/-- Renders a node onto the output of the container that is open around it. The open elements
outside of that container are given, and the surroundings of the node. -/
def node (table : RuleTable) (o : Options) (outer : List Open) (isBlock : Bool) (path : List Step)
    (output : Chars) : Marked → Rendering Chars
  | .text m data => do
    let s ← get
    pure (join output (textOutput s o (⟨output, isBlock⟩ :: outer) m data))
  | .comment _ _ => pure output
  | .document _ _ => pure output
  | .element m t a ks => do
    let site : Site := ⟨.element m t a ks, path⟩
    let rule ← ruleFor table o site
    enter o site
    let content ←
      if rule.rendersChildren then
        nodes table o (⟨output, isBlock⟩ :: outer) (isBlockTag t) (.element m t a) path [] [] ks
      else pure []
    let written ← replace rule site o content output
    leave o site
    pure (join output written)

/-- Renders the remaining children of a container onto its output. -/
def nodes (table : RuleTable) (o : Options) (outer : List Open) (isBlock : Bool) (head : Head)
    (path : List Step) (before : List Marked) (output : Chars) : List Marked → Rendering Chars
  | [] => pure output
  | n :: rest => do
    let output ← node table o outer isBlock (Site.pathTo head path before rest n) output n
    nodes table o outer isBlock head path (n :: before) output rest

end

/-- The body of a document, or the document itself if it has none. -/
def rootOf (site : Site) : Site :=
  match site.node with
  | .document .. => (site.find? "body").getD site
  | _ => site

/-- Renders a root: a document or its body by its children, any other node by itself. -/
def root (table : RuleTable) (o : Options) (site : Site) : Rendering Chars :=
  let top := (rootOf site).prepared o
  match site.node, top.node with
  | .document .., .element m t a ks => nodes table o [] true (.element m t a) top.path [] [] ks
  | .document .., .document m ks => nodes table o [] true (.document m) top.path [] [] ks
  | _, n => node table o [] true top.path [] n

def isLineStart (c : Char) : Bool := c == '\t' || c == '\r' || c == '\n'

/-- Trims the output and adds the link definitions that were collected. -/
def finish (output : Chars) : Rendering Chars := do
  let trimmed := Text.trimEnd Text.isBlank (Text.trimStart isLineStart output)
  let s ← get
  if s.references.isEmpty then pure trimmed
  else
    let (definitions, references) := s.references.flush
    set { s with references }
    pure (if trimmed.isEmpty then definitions else trimmed ++ '\n' :: '\n' :: definitions)

/-- Renders a site as a document of its own. -/
def site (table : RuleTable) (o : Options) (at_ : Site) : Rendering Chars := do
  noteRendering (.renderStarted at_.node.kind table.count)
  let output ← root table o at_
  finish output

/-- Whether a draft may be the root of a rendering. -/
def isRoot : Draft → Bool
  | .text _ | .element .. | .document _ => true
  | .comment _ | .stray _ => false

/-- Renders a draft, if it is sound. -/
def draft (table : RuleTable) (o : Options) (d : Draft) : Rendering Chars :=
  if isRoot d then
    match d.check with
    | .ok tree => site table o (Site.ofTree tree)
    | .error flaw => throw (.malformed flaw)
  else throw (.malformed (.unrenderable d.kind))

end Render

end Downmark
