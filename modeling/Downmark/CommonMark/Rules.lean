import Downmark.CommonMark.Block
import Downmark.CommonMark.Inline
import Downmark.CommonMark.Link
/-!
The rules of plain Markdown, in the order in which they are asked.
-/

set_option autoImplicit false

namespace Downmark

/-- A predicate that cannot fail. -/
def Filter.holds (p : Site → Options → Bool) : Filter := .predicate fun site o => .ok (p site o)

namespace CommonMark

def isCodeBlock (style : CodeBlockStyle) (site : Site) (o : Options) : Bool :=
  o.codeBlockStyle = style && Code.isBlock site.node

def isPreformatted (site : Site) : Bool := site.node.isNamed "pre" && !Code.isBlock site.node

def headingTags : List String := ["h1", "h2", "h3", "h4", "h5", "h6"]

def rules : List Rule :=
  [{ name := "paragraph", filter := .tags ["p"], replacement := Block.paragraph },
   { name := "line-break", filter := .tags ["br"], replacement := Block.lineBreak },
   { name := "heading", filter := .tags headingTags, replacement := Block.heading },
   { name := "blockquote", filter := .tags ["blockquote"], replacement := Block.blockquote },
   { name := "list", filter := .tags ["ul", "ol"], replacement := Block.list },
   { name := "list-item", filter := .tags ["li"], replacement := Block.listItem },
   { name := "indented-code-block", filter := .holds (isCodeBlock .indented),
     replacement := Block.indentedCode, rendersChildren := false },
   { name := "fenced-code-block", filter := .holds (isCodeBlock .fenced),
     replacement := Block.fencedCode, rendersChildren := false },
   { name := "preformatted", filter := .holds fun site _ => isPreformatted site,
     replacement := Block.preformatted },
   { name := "horizontal-rule", filter := .tags ["hr"], replacement := Block.thematicBreak },
   { name := "inline-link",
     filter := .holds fun site o => o.linkStyle = .inlined && Link.isLink site,
     replacement := Link.inlineLink },
   { name := "reference-link",
     filter := .holds fun site o => o.linkStyle = .referenced && Link.isLink site,
     replacement := Link.referenceLink },
   { name := "emphasis", filter := .tags ["em", "i"], replacement := Inline.emphasis },
   { name := "strong", filter := .tags ["strong", "b"], replacement := Inline.strong },
   { name := "code", filter := .holds fun site _ => Inline.isCode site,
     replacement := Inline.code },
   { name := "image", filter := .tags ["img"], replacement := Link.image }]

end CommonMark

end Downmark
