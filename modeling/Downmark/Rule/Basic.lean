import Downmark.State
import Downmark.Text.Case
/-!
Rules: which elements they claim, and what they write for them.

A rule is made from a specification, which is checked: a rule needs a name, a replacement that can
be called, and a filter that is a tag name, a collection of tag names, or a predicate.
-/

set_option autoImplicit false

namespace Downmark

/-- Decides whether a rule claims an element. -/
abbrev Predicate := Site → Options → Except Failure Bool

/-- Writes an element, given the Markdown of its children. -/
abbrev Replacement := Chars → Site → Options → Rendering Chars

/-- Which elements a rule claims. -/
inductive Filter where
  | tags (names : List String)
  | predicate (holds : Predicate)

/-- The tag names of a filter, if it has any. -/
def Filter.tags? : Filter → Option (List String)
  | .tags names => some names
  | .predicate _ => none

structure Rule where
  name : String
  filter : Filter
  replacement : Replacement
  /-- In a strict table, no other exclusive rule may claim the same tags. -/
  exclusive : Bool := false
  /-- The children are rendered before the rule is asked. -/
  rendersChildren : Bool := true

/-- A replacement that cannot fail and changes nothing. -/
def Replacement.ofFunction (f : Chars → Site → Options → State → Chars) : Replacement :=
  fun content site o => do
    let s ← get
    pure (f content site o s)

/-- A filter before it is checked. -/
inductive FilterSpec where
  | value (v : Value)
  | predicate (holds : Predicate)

/-- A replacement before it is checked. -/
inductive ReplacementSpec where
  | function (f : Replacement)
  | value (v : Value)

/-- A rule before it is checked. -/
structure RuleSpec where
  name : String
  filter : FilterSpec
  replacement : ReplacementSpec
  exclusive : Bool := false
  rendersChildren : Bool := true

/-- The strings of a list that holds nothing else. -/
def allStrings? : List Value → Option (List String)
  | [] => some []
  | .str s :: rest => (allStrings? rest).map (s :: ·)
  | _ :: _ => none

def lowerName (name : String) : String := String.ofList (Text.lower name.toList)

/-- The filter that a specification describes, tag names in lower case. -/
def FilterSpec.check (rule : String) : FilterSpec → Except Failure Filter
  | .predicate holds => .ok (.predicate holds)
  | .value (.str s) => .ok (.tags [lowerName s])
  | .value (.list (first :: rest)) =>
    match allStrings? (first :: rest) with
    | some names => .ok (.tags (names.map lowerName))
    | none => .error (.invalid (.ruleFilter rule))
  | .value _ => .error (.invalid (.ruleFilter rule))

namespace Rule

/-- The rule that a specification describes. -/
def make (spec : RuleSpec) : Except Failure Rule :=
  if spec.name.isEmpty then .error (.invalid .ruleName)
  else match spec.replacement with
    | .value _ => .error (.invalid (.ruleReplacement spec.name))
    | .function replacement => do
      let filter ← spec.filter.check spec.name
      pure { name := spec.name, filter, replacement, exclusive := spec.exclusive,
             rendersChildren := spec.rendersChildren }

/-- The tag names that a rule claims, if it claims elements by name. -/
def tags? (rule : Rule) : Option (List String) := rule.filter.tags?

/-- Whether a rule claims an element. -/
def claims (rule : Rule) (site : Site) (o : Options) : Except Failure Bool :=
  match rule.filter with
  | .tags names => .ok (names.contains site.tag)
  | .predicate holds => holds site o

end Rule

end Downmark
