import Downmark.Whitespace.Squeeze
import Downmark.Node.Site
/-!
Collapsing white space across a tree.

A tree is read as a sequence of events: texts, borders of blocks, opaque inline content, and tags
of other inline elements. Runs of white space become one space; a space is dropped where the text
before already ends in one, after a border, and before a border.
-/

set_option autoImplicit false

namespace Downmark.Whitespace

/-- What a reader meets going through a tree. -/
inductive Event where
  | text (data : Chars)
  /-- A tag of a block element, or a line break. -/
  | border
  /-- Inline content without text of its own, or text that is left as it is. -/
  | solid
  /-- A tag of any other inline element. -/
  | tag
deriving DecidableEq, Repr

/-- Whether text below an element of that name is left as it is. -/
def isKept (keep : Bool) (tag : String) : Bool := keep && (tag == "pre" || tag == "code")

/-- The event of a tag. -/
def eventOf (keep : Bool) (tag : String) : Event :=
  if isBlockTag tag || tag == "br" then .border
  else if isVoidTag tag || isKept keep tag then .solid
  else .tag

mutual

/-- The events of a tree. Comments and documents inside of documents have none. -/
def events {μ : Type} (keep : Bool) : Node μ → List Event
  | .text _ data => [.text data]
  | .comment _ _ => []
  | .document _ _ => []
  | .element _ t _ ks =>
    if isKept keep t then [eventOf keep t]
    else eventOf keep t :: (eventsOf keep ks ++ [eventOf keep t])

def eventsOf {μ : Type} (keep : Bool) : List (Node μ) → List Event
  | [] => []
  | n :: rest => events keep n ++ eventsOf keep rest

end

/-- What is known of the text before. -/
structure Flow where
  /-- Whether the text before ends in a space, if there is any since the last border. -/
  ending : Option Bool := none
  /-- A leading space is kept. -/
  keepsSpace : Bool := false

/-- Whether a leading space is dropped. -/
def Flow.dropsSpace (flow : Flow) : Bool := flow.ending.getD true && !flow.keepsSpace

/-- The text without one leading space. -/
def dropSpace : Chars → Chars
  | ' ' :: s => s
  | s => s

/-- What is known after a text was written. -/
def Flow.after (flow : Flow) (s : Chars) : Flow :=
  match s.getLast? with
  | none => flow
  | some c => { flow with ending := some (c == ' ') }

/-- From left to right: squeezes every text and drops leading spaces. -/
def forward : Flow → List Event → List Event
  | _, [] => []
  | flow, .text raw :: rest =>
    let s := squeeze raw
    let s := if flow.dropsSpace then dropSpace s else s
    .text s :: forward (flow.after s) rest
  | _, .border :: rest => .border :: forward {} rest
  | _, .solid :: rest => .solid :: forward { keepsSpace := true } rest
  | flow, .tag :: rest =>
    .tag :: forward (if flow.ending.isSome then { flow with keepsSpace := false } else flow) rest

/-- From right to left: drops trailing spaces of the last text before a border. Also tells whether
a border, or the end, is what follows next. -/
def backward : List Event → Bool × List Chars
  | [] => (true, [])
  | .text s :: rest =>
    let (atBorder, texts) := backward rest
    if s.isEmpty then (atBorder, s :: texts)
    else (false, (if atBorder then Text.trimEnd (· == ' ') s else s) :: texts)
  | .border :: rest => (true, (backward rest).2)
  | .solid :: rest => (false, (backward rest).2)
  | .tag :: rest => backward rest

/-- The texts among some events with white space collapsed, in order. -/
def settle (found : List Event) : List Chars := (backward (forward {} found)).2

mutual

/-- Notes the settled texts on the text nodes, in the order of the events. -/
def fill (keep : Bool) : Marked → List Chars → Marked × List Chars
  | .text m data, [] => (.text m data, [])
  | .text m data, s :: rest => (.text { m with shown := some s } data, rest)
  | .comment m data, texts => (.comment m data, texts)
  | .document m ks, texts => (.document m ks, texts)
  | .element m t a ks, texts =>
    if isKept keep t then (.element m t a ks, texts)
    else
      let (ks, rest) := fillAll keep ks texts
      (.element m t a ks, rest)

def fillAll (keep : Bool) : List Marked → List Chars → List Marked × List Chars
  | [], texts => ([], texts)
  | n :: more, texts =>
    let (n, rest) := fill keep n texts
    let (more, rest) := fillAll keep more rest
    (n :: more, rest)

end

/-- Notes on every text below a root what is left of it after white space is collapsed. Texts that
are kept as they are get no note, nor does a root that is no container. -/
def collapse (keep : Bool) (root : Marked) : Marked :=
  match root with
  | .element m t a ks =>
    if isKept keep t then root
    else .element m t a (fillAll keep ks (settle (eventsOf keep ks))).1
  | .document m ks => .document m (fillAll keep ks (settle (eventsOf keep ks))).1
  | _ => root

end Downmark.Whitespace
