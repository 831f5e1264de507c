import Downmark.Text.Integer
/-!
Dates and times of day as options files write them, and how messages show them.
-/

set_option autoImplicit false

namespace Downmark

/-- A day of the calendar. -/
structure Date where
  year : Nat
  month : Nat
  day : Nat
deriving DecidableEq, Repr

/-- A time of day, to the millionth of a second. -/
structure ClockTime where
  hour : Nat
  minute : Nat
  second : Nat
  micro : Nat := 0
deriving DecidableEq, Repr

/-- A day, a time of day, or both, these with or without their distance from universal time, in
minutes eastward. -/
inductive Moment where
  | date (d : Date)
  | time (t : ClockTime)
  | dateTime (d : Date) (t : ClockTime) (offset : Option Int)
deriving DecidableEq, Repr

/-- Whether a year has a leap day. -/
def isLeapYear (year : Nat) : Bool :=
  year % 4 == 0 && (year % 100 != 0 || year % 400 == 0)

/-- The days of a month. -/
def daysIn (year month : Nat) : Nat :=
  if month == 2 then (if isLeapYear year then 29 else 28)
  else if [4, 6, 9, 11].contains month then 30
  else 31

/-- Whether the calendar has such a day; years have four digits and start at one. -/
def Date.isValid (d : Date) : Bool :=
  1 ≤ d.year && d.year ≤ 9999 && 1 ≤ d.month && d.month ≤ 12 && 1 ≤ d.day
    && d.day ≤ daysIn d.year d.month

def ClockTime.isValid (t : ClockTime) : Bool :=
  t.hour < 24 && t.minute < 60 && t.second < 60 && t.micro < 1000000

/-- A distance from universal time stays below a whole day. -/
def isValidOffset (minutes : Int) : Bool := minutes.natAbs < 1440

namespace Moment

/-- The word for the kind of a moment in messages. -/
def kind : Moment → String
  | .date _ => "date"
  | .time _ => "time"
  | .dateTime .. => "datetime"

/-- A number in at least as many digits as asked for. -/
def padded (width n : Nat) : Chars :=
  let digits := Text.ofNat n
  List.replicate (width - digits.length) '0' ++ digits

/-- A day as year, month and day with dashes. -/
def dateText (d : Date) : Chars :=
  padded 4 d.year ++ '-' :: padded 2 d.month ++ '-' :: padded 2 d.day

/-- A time of day with colons, and a fraction if there is one. -/
def timeText (t : ClockTime) : Chars :=
  padded 2 t.hour ++ ':' :: padded 2 t.minute ++ ':' :: padded 2 t.second
    ++ (if t.micro == 0 then [] else '.' :: padded 6 t.micro)

def offsetText (minutes : Int) : Chars :=
  (if minutes < 0 then '-' else '+') :: padded 2 (minutes.natAbs / 60)
    ++ ':' :: padded 2 (minutes.natAbs % 60)

/-- A moment as plain text. -/
def text : Moment → Chars
  | .date d => dateText d
  | .time t => timeText t
  | .dateTime d t none => dateText d ++ ' ' :: timeText t
  | .dateTime d t (some minutes) => dateText d ++ ' ' :: timeText t ++ offsetText minutes

/-- The parts of a time of day that are shown: seconds only if they or their parts are not zero. -/
def timeParts (t : ClockTime) : List Nat :=
  if t.micro != 0 then [t.hour, t.minute, t.second, t.micro]
  else if t.second != 0 then [t.hour, t.minute, t.second]
  else [t.hour, t.minute]

/-- A name with arguments in round brackets. -/
def call (name : String) (arguments : List Chars) : Chars :=
  name.toList ++ '(' :: [',', ' '].intercalate arguments ++ [')']

/-- A distance from universal time as messages show it: whole days and seconds of a day, the
seconds never negative. -/
def offsetShown (minutes : Int) : Chars :=
  if minutes == 0 then "datetime.timezone.utc".toList
  else
    let days : List Chars := if minutes < 0 then ["days=-1".toList] else []
    let seconds := (if minutes < 0 then 60 * minutes + 86400 else 60 * minutes).toNat
    call "datetime.timezone"
      [call "datetime.timedelta" (days ++ ["seconds=".toList ++ Text.ofNat seconds])]

/-- A moment as messages show it. -/
def shown : Moment → Chars
  | .date d => call "datetime.date" ([d.year, d.month, d.day].map Text.ofNat)
  | .time t => call "datetime.time" ((timeParts t).map Text.ofNat)
  | .dateTime d t offset =>
    let zone : List Chars := match offset with
      | some minutes => ["tzinfo=".toList ++ offsetShown minutes]
      | none => []
    call "datetime.datetime"
      (([d.year, d.month, d.day] ++ timeParts t).map Text.ofNat ++ zone)

end Moment

end Downmark
