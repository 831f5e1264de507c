import Downmark.Rule.Basic
import Downmark.CommonMark.Code
/-!
Inline rules: emphasis, strong emphasis and code spans.

A delimiter is avoided if it occurs in the text of the element, or unescaped in the Markdown that
it is put around.
-/

set_option autoImplicit false

namespace Downmark.Inline

/-- Whether a delimiter occurs in a text after an even number of backslashes; `even` tells of the
backslashes right before the text. -/
def hasUnescapedFrom (delimiter : Chars) (even : Bool) : Chars → Bool
  | [] => false
  | c :: s =>
    (even && Text.startsWith delimiter (c :: s))
      || hasUnescapedFrom delimiter (if c == '\\' then !even else true) s

/-- Whether a delimiter occurs unescaped in some Markdown. -/
def hasUnescaped (delimiter content : Chars) : Bool := hasUnescapedFrom delimiter true content

/-- Whether a delimiter occurs where it would be put around. -/
def collides (text content delimiter : Chars) : Bool :=
  Text.contains delimiter text || hasUnescaped delimiter content

/-- The preferred delimiter, or the alternate if the preferred one collides and the alternate
does not. -/
def chooseDelimiter (text content preferred alternate : Chars) : Chars :=
  if !collides text content preferred then preferred
  else if !collides text content alternate then alternate
  else preferred

/-- Content between delimiters; blank content leaves nothing. -/
def delimited (text content preferred alternate : Chars) : Chars :=
  if Text.isBlankText content then []
  else
    let delimiter := chooseDelimiter text content preferred alternate
    delimiter ++ content ++ delimiter

def otherEm : EmDelimiter → EmDelimiter
  | .underscore => .star
  | .star => .underscore

def otherStrong : StrongDelimiter → StrongDelimiter
  | .stars => .underscores
  | .underscores => .stars

def emphasis : Replacement := .ofFunction fun content site o _ =>
  delimited site.node.textContent content o.emDelimiter.text (otherEm o.emDelimiter).text

def strong : Replacement := .ofFunction fun content site o _ =>
  delimited site.node.textContent content o.strongDelimiter.text
    (otherStrong o.strongDelimiter).text

/-- Code that is no part of a code block. -/
def isCode (site : Site) : Bool :=
  site.node.isNamed "code" &&
    !(site.isIn "pre" && match site.parent? with
      | some parent => Code.isBlock parent.node
      | none => false)

def code : Replacement := .ofFunction fun content _ _ _ => Code.span content

end Downmark.Inline
