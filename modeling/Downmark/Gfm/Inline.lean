import Downmark.CommonMark.Block
/-!
Struck text, check boxes of task lists, and highlighted code.
-/

set_option autoImplicit false

namespace Downmark.Gfm

def strikethrough : Replacement := .ofFunction fun content _ _ _ =>
  if Text.isBlankText content then content else '~' :: '~' :: content ++ ['~', '~']

/-- Whether a site is a check box of a list item. -/
def isTaskBox (site : Site) : Bool :=
  site.node.isNamed "input" && String.ofList (Text.lower (site.node.attr "type")) == "checkbox"
    && site.isIn "li"

def taskBox : Replacement := .ofFunction fun _ site o s =>
  let box := if (site.node.attr? "checked").isSome then "[x]".toList else "[ ]".toList
  if s.nextStartsWithSpace o site then box else box ++ [' ']

def isLanguageChar (c : Char) : Bool := ('a' ≤ c && c ≤ 'z') || Text.isAsciiDigit c

/-- The language that the class of highlighted code names. -/
def highlightLanguage? {μ : Type} (n : Node μ) : Option Chars :=
  Code.search "highlight-".toList (fun rest =>
    ((Text.strip? "text-".toList rest).orElse fun _ => Text.strip? "source-".toList rest).bind
      (Code.runOf? isLanguageChar)) (n.attr "class")

/-- Whether an element wraps highlighted code. -/
def isHighlighted {μ : Type} (n : Node μ) : Bool :=
  n.isNamed "div" && (highlightLanguage? n).isSome &&
    match n.elements with
    | first :: _ => first.isNamed "pre"
    | [] => false

def highlightedCode : Replacement := .ofFunction fun _ site o _ =>
  let code := match site.node.find? "pre" with
    | some pre => Text.trimEnd Text.isNewline pre.textContent
    | none => []
  Block.apart (Code.fenced o.fence.char ((highlightLanguage? site.node).getD "None".toList) code)

end Downmark.Gfm
