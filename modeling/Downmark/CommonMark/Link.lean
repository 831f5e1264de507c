import Downmark.Rule.Basic
/-!
Links and images, with the target in place or by reference to a definition at the end.
-/

set_option autoImplicit false

namespace Downmark.Link

/-- An attribute with newlines, and the white space after them, reduced to one newline each;
`inGap` tells that the text follows such a newline. -/
def cleanFrom (inGap : Bool) : Chars → Chars
  | [] => []
  | c :: s =>
    if inGap && Text.isBlank c then cleanFrom true s
    else if c == '\n' then c :: cleanFrom true s
    else c :: cleanFrom false s

/-- The value of an attribute as it is written in Markdown. -/
def clean (s : Chars) : Chars := cleanFrom false s

/-- The destination of a link in place. -/
def destination (url : Chars) : Chars :=
  let escaped := Text.backslash ['(', ')'] url
  if escaped.contains ' ' then '<' :: escaped ++ ['>'] else escaped

/-- The title of an element, if it has one that is not empty. -/
def title? {μ : Type} (n : Node μ) : Option Chars :=
  match clean (n.attr "title") with
  | [] => none
  | title => some title

/-- Target and title of a link in place. -/
def target (url : Chars) (title : Option Chars) : Chars :=
  '(' :: destination url ++ Reference.titleSuffix title ++ [')']

/-- Asks the collector and notes in the log if the label had to be changed. -/
def ask (label : Chars) (request : Reference.Collector → Reference.Added × Reference.Collector) :
    Rendering Chars := do
  let s ← get
  let (added, references) := request s.references
  set { s with references }
  match added with
  | .renamed fresh => noteRendering (.labelRenamed (String.ofList label) (String.ofList fresh))
  | _ => pure ()
  pure added.label

/-- Registers a definition and gives what follows the text in brackets. -/
def referenceSuffix (text url : Chars) (title : Option Chars) (style : LabelStyle) :
    Rendering Chars := do
  if style = .full || Text.isBlankText text then
    let label ← ask [] fun references => references.addNumbered url title
    pure ('[' :: label ++ [']'])
  else
    let label ← ask text fun references => references.add text url title
    if label != text then pure ('[' :: label ++ [']'])
    else pure (if style = .collapsed then ['[', ']'] else [])

/-- Whether a site is a link with a target. -/
def isLink (site : Site) : Bool := site.node.isNamed "a" && !(site.node.attr "href").isEmpty

def inlineLink : Replacement := .ofFunction fun content site _ _ =>
  '[' :: content ++ ']' :: target (site.node.attr "href") (title? site.node)

def referenceLink : Replacement := fun content site o => do
  let suffix ←
    referenceSuffix content (site.node.attr "href") (title? site.node) o.labelStyle
  pure ('[' :: content ++ ']' :: suffix)

/-- The text of an image, brackets escaped. -/
def imageText {μ : Type} (n : Node μ) : Chars := Text.backslash ['[', ']'] (clean (n.attr "alt"))

/-- An image without a source leaves nothing. -/
def image : Replacement := fun _ site o => do
  let source := site.node.attr "src"
  if source.isEmpty then pure []
  else
    let alt := imageText site.node
    let title := title? site.node
    let rest ←
      if o.linkStyle = .referenced then referenceSuffix alt source title o.labelStyle
      else pure (target source title)
    pure ('!' :: '[' :: alt ++ ']' :: rest)

end Downmark.Link
