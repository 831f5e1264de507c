import Downmark.Node.Basic
/-!
Classes of elements: block elements, void elements, and elements that mean something without text.
-/

set_option autoImplicit false

namespace Downmark

/-- Elements that stand on lines of their own. -/
def blockTags : List String :=
  ["address", "article", "aside", "audio", "blockquote", "body", "canvas", "center", "dd", "dir",
   "div", "dl", "dt", "fieldset", "figcaption", "figure", "footer", "form", "frameset", "h1", "h2",
   "h3", "h4", "h5", "h6", "header", "hgroup", "hr", "html", "isindex", "li", "main", "menu", "nav",
   "noframes", "noscript", "ol", "output", "p", "pre", "section", "table", "tbody", "td", "tfoot",
   "th", "thead", "tr", "ul"]

/-- Elements that are written without an end tag. -/
def voidTags : List String :=
  ["area", "base", "br", "col", "command", "embed", "hr", "img", "input", "keygen", "link", "meta",
   "param", "source", "track", "wbr"]

/-- Elements that mean something with no text inside. -/
def meaningfulTags : List String :=
  ["a", "table", "thead", "tbody", "tfoot", "th", "td", "iframe", "script", "audio", "video"]

/-- Elements whose content no reader sees. -/
def removedTags : List String := ["script", "style", "template", "noscript"]

def isBlockTag (tag : String) : Bool := blockTags.contains tag

def isVoidTag (tag : String) : Bool := voidTags.contains tag

/-- Elements that stay when they hold no text. -/
def staysBlankTag (tag : String) : Bool := isVoidTag tag || meaningfulTags.contains tag

def isListTag (tag : String) : Bool := tag == "ul" || tag == "ol"

namespace Node

variable {μ : Type}

def isBlock (n : Node μ) : Bool := isBlockTag n.tag

def isVoid (n : Node μ) : Bool := isVoidTag n.tag

/-- Whether an element renders to nothing: it is no void element and none that means something
without text, all its text is white space, and no element below it is of these two kinds. -/
def isBlank (n : Node μ) : Bool :=
  !staysBlankTag n.tag && Text.isBlankText n.textContent
    && !n.descendants.any fun d => d.isElement && staysBlankTag d.tag

end Node

end Downmark
