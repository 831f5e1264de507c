import Downmark.Node.Classes
/-!
Trees written as HTML.
-/

set_option autoImplicit false

namespace Downmark

namespace Markup

/-- A character of text. -/
def textChar (c : Char) : Chars :=
  if c == '&' then "&amp;".toList
  else if c == '<' then "&lt;".toList
  else if c == '>' then "&gt;".toList
  else [c]

/-- A character of a quoted attribute value. -/
def valueChar (c : Char) : Chars :=
  if c == '"' then "&quot;".toList
  else if c == '\'' then "&#x27;".toList
  else textChar c

def text (s : Chars) : Chars := s.flatMap textChar

def value (s : Chars) : Chars := s.flatMap valueChar

/-- An attribute with the space before it. -/
def written (a : String × Chars) : Chars :=
  ' ' :: a.1.toList ++ ['=', '"'] ++ value a.2 ++ ['"']

def startTag (tag : String) (attrs : Attrs) : Chars :=
  '<' :: tag.toList ++ attrs.flatMap written ++ ['>']

def endTag (tag : String) : Chars := '<' :: '/' :: tag.toList ++ ['>']

end Markup

namespace Node

variable {μ : Type}

mutual

/-- A tree as HTML. -/
def outerHtml : Node μ → Chars
  | .text _ data => Markup.text data
  | .comment _ data => "<!--".toList ++ data ++ "-->".toList
  | .element _ t a ks =>
    if isVoidTag t then Markup.startTag t a
    else Markup.startTag t a ++ innerHtml ks ++ Markup.endTag t
  | .document _ ks => innerHtml ks

def innerHtml : List (Node μ) → Chars
  | [] => []
  | n :: rest => outerHtml n ++ innerHtml rest

end

end Node

end Downmark
