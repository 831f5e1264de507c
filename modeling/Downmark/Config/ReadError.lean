/-!
Why a text cannot be read as a value.
-/

set_option autoImplicit false

namespace Downmark

inductive ReadError where
  /-- The text does not follow its format. -/
  | malformed
  /-- Digits that are no number of their base, too many of them, a character number or a day that
  does not exist. -/
  | badNumber
  /-- A place of a number that is larger than every number with a fractional part, or a character
  number of more than 31 bits. -/
  | tooLarge
  /-- A number without a digit. -/
  | noDigits
  /-- A word that is none of the two truth values. -/
  | noTruthValue
  /-- A text that is no day and no time. -/
  | noMoment
  /-- Values that lie too deep inside of one another. -/
  | tooDeep
deriving DecidableEq, Repr

/-- Reading, which may fail. -/
abbrev Reading := Except ReadError

/-- What a step found, which has to find something. -/
def demand {α : Type} : Option α → Reading α
  | some a => .ok a
  | none => .error .malformed

end Downmark
