import Downmark.Options.Basic
import Downmark.Reference.Collector
import Downmark.Whitespace.Squeeze
import Downmark.Node.Site
/-!
What changes while a document is rendered: the link definitions, and how deep the walk is inside
of lists, indentation, preformatted text and code.
-/

set_option autoImplicit false

namespace Downmark

structure State where
  references : Reference.Collector := {}
  /-- Lists that are open. -/
  listDepth : Int := 0
  /-- What open list items and quotes put in front of a line, innermost first. -/
  indents : List Chars := []
  /-- Preformatted elements that are open, if they are kept as they are. -/
  preformattedDepth : Int := 0
  /-- Code elements that are open. -/
  codeDepth : Int := 0
  log : Log := []

/-- Work within a rendering. -/
abbrev Rendering := EStateM Failure State

namespace State

/-- All that stands in front of a line of a block. -/
def blockIndent (s : State) : Chars := s.indents.reverse.flatten

def inPreformatted (s : State) : Bool := 0 < s.preformattedDepth

def inCode (s : State) : Bool := 0 < s.codeDepth

/-- The text of a text node: what was noted on it, or else its data, with runs of white space
squeezed unless they are kept. -/
def textOf (s : State) (o : Options) (mark : Mark) (data : Chars) : Chars :=
  match mark.shown with
  | some shown => shown
  | none =>
    if o.preformattedCode && (s.inPreformatted || s.inCode) then data else Whitespace.squeeze data

/-- Whether a node adds nothing to the text: a comment, or a text node without text. -/
def isEmptyText (s : State) (o : Options) : Marked → Bool
  | .comment _ _ => true
  | .text m data => (s.textOf o m data).isEmpty
  | _ => false

/-- Whether something is still to come after a site. -/
def hasFollowingContent (s : State) (o : Options) (site : Site) : Bool :=
  site.following.any fun n => !s.isEmptyText o n

/-- Whether what comes after a site begins with white space. -/
def nextStartsWithSpace (s : State) (o : Options) (site : Site) : Bool :=
  match site.following.dropWhile Node.isComment with
  | .text m data :: _ => (s.textOf o m data).head? == some ' '
  | .element _ t _ _ :: _ => isBlockTag t || t == "br"
  | _ => false

end State

/-- Adds an event to the log of a rendering. -/
def noteRendering (event : Event) : Rendering Unit :=
  modify fun s => { s with log := s.log ++ [event] }

end Downmark
