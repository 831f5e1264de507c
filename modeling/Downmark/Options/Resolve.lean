import Downmark.Options.Basic
import Downmark.Text.Case
/-!
Options from what people write: several spellings of each key, choices named by position, and
values that fit no choice replaced by a default.
-/

set_option autoImplicit false

namespace Downmark

/-- Options as somebody wrote them: the entries of a mapping whose keys may be any scalars. -/
abbrev RawOptions := List (Scalar × Value)

namespace Field

/-- Other spellings of the fields: names with inner capitals, and long and short flags. -/
def aliases : List (String × Field) :=
  [("headingStyle", .headingStyle), ("head", .headingStyle), ("t", .headingStyle),
   ("r", .thematicBreak),
   ("bulletListMarker", .bulletMarker), ("bullet", .bulletMarker), ("b", .bulletMarker),
   ("codeBlockStyle", .codeBlockStyle), ("code", .codeBlockStyle), ("c", .codeBlockStyle),
   ("f", .fence),
   ("emDelimiter", .emDelimiter), ("em", .emDelimiter), ("e", .emDelimiter),
   ("strongDelimiter", .strongDelimiter), ("strong", .strongDelimiter), ("s", .strongDelimiter),
   ("linkStyle", .linkStyle), ("link", .linkStyle), ("l", .linkStyle),
   ("linkReferenceStyle", .labelStyle), ("linkref", .labelStyle), ("u", .labelStyle),
   ("preformattedCode", .preformattedCode), ("pre", .preformattedCode), ("p", .preformattedCode)]

/-- The field that a key means: leading dashes are skipped, and inner dashes may stand for
underscores. -/
def ofKey? (key : String) : Option Field :=
  let bare := key.toList.dropWhile (· == '-')
  let name := String.ofList bare
  match ofName? name with
  | some field => some field
  | none =>
    match aliases.lookup name with
    | some field => some field
    | none => ofName? (String.ofList (bare.map fun c => if c == '-' then '_' else c))

end Field

namespace Options

def yesWords : List String := ["true", "yes", "on"]

def noWords : List String := ["false", "no", "off"]

/-- A word for yes or no as a truth value, all other values as they are. -/
def readBool : Value → Value
  | .str s =>
    let word := String.ofList (Text.lower (Text.strip s.toList))
    if yesWords.contains word then .bool true
    else if noWords.contains word then .bool false
    else .str s
  | v => v

/-- The position that a value names, counted from one. A text of digits that are not all decimal
digits looks like a position and cannot be read as one. -/
def position? : Value → Except Failure (Option Int)
  | .int n => .ok (some n)
  | .str s =>
    let digits := Text.strip s.toList
    if digits.isEmpty || !digits.all Text.isDigit then .ok none
    else match Text.int? digits with
      | some n => .ok (some n)
      | none => .error .notANumber
  | _ => .ok none

/-- The choice at a position, counted from one. -/
def choiceAt? (choices : List Value) (position : Int) : Option Value :=
  if 1 ≤ position then choices[(position - 1).toNat]? else none

/-- The choice of a field that a value means. A position out of range keeps the given default, any
other value that means no choice gives the first one. -/
def resolveValue (field : Field) (v default : Value) : Logged Value := do
  let v := if field = .preformattedCode then readBool v else v
  match field.choices.find? (· == v) with
  | some choice => pure choice
  | none =>
    match position? v with
    | .error failure => throw failure
    | .ok (some position) =>
      match choiceAt? field.choices position with
      | some choice => pure choice
      | none =>
        if v.isEndless then throw .tooManyDigits
        else do
          note (.selectorIgnored v field.name)
          pure default
    | .ok none =>
      if v.isEndless then throw .tooManyDigits
      else do
        let first := field.choices.headD .null
        note (.optionInvalid v field.name first)
        pure first

/-- Values by field: a repeated field keeps its first place and takes its last value. -/
def putField (field : Field) (v : Value) : List (Field × Value) → List (Field × Value)
  | [] => [(field, v)]
  | (f, w) :: rest => if f = field then (f, v) :: rest else (f, w) :: putField field v rest

/-- Collects the values given for the fields; keys that mean no field are skipped. -/
def gather : RawOptions → List (Field × Value) → Logged (List (Field × Value))
  | [], found => pure found
  | (key, v) :: rest, found =>
    if key.isEndless then throw .tooManyDigits
    else
      let name := String.ofList key.text
      match Field.ofKey? name with
      | none => do
        note (.optionIgnored name)
        gather rest found
      | some field => gather rest (putField field v found)

/-- Resolves the gathered values against the options they start from. -/
def settle (start : Options) : List (Field × Value) → Options → Logged Options
  | [], o => pure o
  | (field, v) :: rest, o => do
    let choice ← resolveValue field v (start.get field)
    settle start rest ((o.set? field choice).getD o)

/-- The options `start` with everything that `raw` and then `overrides` say. -/
def resolve (start : Options) (raw overrides : RawOptions) : Logged Options := do
  let found ← gather (raw ++ overrides) []
  settle start found start

end Options

end Downmark
