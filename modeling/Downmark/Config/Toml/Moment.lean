import Downmark.Value.Moment
import Downmark.Text.Classes
import Downmark.Config.ReadError
/-!
Dates and times in TOML: a day, a time of day, or both with a distance from universal time.

A text is taken for a moment by its form alone; a day that no calendar has is an error.
-/

set_option autoImplicit false

namespace Downmark.Toml

/-- A number of exactly so many digits, and what follows it. -/
def digits? (width : Nat) (s : Chars) : Option (Nat × Chars) :=
  let ds := s.take width
  if ds.length == width && ds.all Text.isAsciiDigit then
    some (ds.foldl (fun n c => 10 * n + (c.toNat - '0'.toNat)) 0, s.drop width)
  else none

/-- A two-digit number that is not above a limit. -/
def upTo? (low high : Nat) (s : Chars) : Option (Nat × Chars) := do
  let (n, rest) ← digits? 2 s
  if low ≤ n && n ≤ high then pure (n, rest) else none

/-- A fraction of a second in millionths, the digits beyond the sixth being dropped. -/
def micros (s : Chars) : Nat × Chars :=
  match s with
  | '.' :: rest =>
    match rest.takeWhile Text.isAsciiDigit with
    | [] => (0, s)
    | ds =>
      let six := (ds ++ List.replicate 6 '0').take 6
      (six.foldl (fun n c => 10 * n + (c.toNat - '0'.toNat)) 0,
        rest.dropWhile Text.isAsciiDigit)
  | _ => (0, s)

/-- A time of day at the beginning of a text. -/
def clockTime? (s : Chars) : Option (ClockTime × Chars) := do
  let (hour, s) ← upTo? 0 23 s
  let s ← Text.strip? [':'] s
  let (minute, s) ← upTo? 0 59 s
  let s ← Text.strip? [':'] s
  let (second, s) ← upTo? 0 59 s
  let (micro, s) := micros s
  pure ({ hour, minute, second, micro }, s)

/-- A day at the beginning of a text; it need not exist. -/
def date? (s : Chars) : Option (Date × Chars) := do
  let (year, s) ← digits? 4 s
  let s ← Text.strip? ['-'] s
  let (month, s) ← upTo? 1 12 s
  let s ← Text.strip? ['-'] s
  let (day, s) ← upTo? 1 31 s
  pure ({ year, month, day }, s)

/-- A distance from universal time in minutes, if one stands here. -/
def offset? (s : Chars) : Option (Int × Chars) :=
  match s with
  | [] => none
  | c :: rest =>
    if c == 'Z' || c == 'z' then some (0, rest)
    else if c == '+' || c == '-' then do
      let (hours, rest) ← upTo? 0 23 rest
      let rest ← Text.strip? [':'] rest
      let (minutes, rest) ← upTo? 0 59 rest
      let total : Int := 60 * hours + minutes
      pure (if c == '-' then -total else total, rest)
    else none

/-- The time of day that follows a day, after a letter or a space. -/
def timeAfter? (s : Chars) : Option (ClockTime × Chars) :=
  match s with
  | c :: rest => if c == 'T' || c == 't' || c == ' ' then clockTime? rest else none
  | [] => none

/-- The moment that a text begins with, if it begins with one. -/
def moment? (s : Chars) : Option (Reading (Moment × Chars)) :=
  match date? s with
  | some (d, rest) =>
    if !d.isValid then some (.error .malformed)
    else match timeAfter? rest with
      | none => some (.ok (.date d, rest))
      | some (t, rest) =>
        match offset? rest with
        | some (minutes, rest) => some (.ok (.dateTime d t (some minutes), rest))
        | none => some (.ok (.dateTime d t none, rest))
  | none => (clockTime? s).map fun found => .ok (.time found.1, found.2)

end Downmark.Toml
