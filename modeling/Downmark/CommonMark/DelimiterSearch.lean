import Downmark.CommonMark.Inline
/-!
Looking for an unescaped delimiter from occurrence to occurrence.

At each occurrence the backslashes right before it are counted back from there. An even number of
them ends the search. Otherwise it goes on one character later, so that occurrences may overlap.
-/

set_option autoImplicit false

namespace Downmark.Inline

/-- The first place, from one on, at which a delimiter occurs. -/
def placeFrom (delimiter content : Chars) (start : Nat) : Option Nat :=
  (List.range' start (content.length + 1 - start)).find? fun place =>
    Text.startsWith delimiter (content.drop place)

/-- The number of backslashes right before a place. -/
def slashesBefore (content : Chars) : Nat → Nat
  | 0 => 0
  | place + 1 => if content[place]? = some '\\' then slashesBefore content place + 1 else 0

/-- How far a search has come. -/
inductive Search where
  /-- An occurrence has been reached and not been looked at. -/
  | reached (place : Nat)
  | ended (found : Bool)
deriving DecidableEq, Repr

namespace Search

/-- Goes on at the next occurrence. Without one, nothing is found. -/
def goOn : Option Nat → Search
  | some place => .reached place
  | none => .ended false

def start (delimiter content : Chars) : Search := goOn (placeFrom delimiter content 0)

/-- Looks at the occurrence that has been reached. -/
def step (delimiter content : Chars) : Search → Search
  | .reached place =>
    if slashesBefore content place % 2 = 0 then .ended true
    else goOn (placeFrom delimiter content (place + 1))
  | .ended found => .ended found

end Search

end Downmark.Inline
