import Downmark.CommonMark.Rules
import Downmark.Node.Markup
/-!
Rule tables: which rule converts an element.

The blank rule comes first, then rules that were registered, the rules of plain Markdown, the rules
that keep an element as HTML, and the rules that drop it. An element that none of them claims loses
its tag and keeps its content. The first rule that claims an element converts it.
-/

set_option autoImplicit false

namespace Downmark

/-- Which of two registered rules is asked first. -/
inductive Priority where
  | lastRegistered
  | firstRegistered
deriving DecidableEq, Repr

instance : Choice Priority where
  all := [.lastRegistered, .firstRegistered]
  value
    | .lastRegistered => .str "last_registered_wins"
    | .firstRegistered => .str "first_registered_wins"

/-- The priority that a value names. -/
def Priority.ofValue (v : Value) : Except Failure Priority :=
  match Choice.ofValue? v with
  | some priority => .ok priority
  | none => .error (.invalid (.priority v (Choice.values Priority)))

namespace Rule

def blankReplacement : Replacement := .ofFunction fun _ site _ _ =>
  if site.node.isBlock then ['\n', '\n'] else []

/-- Children of a blank element are still rendered, so that an inline element made of a single
space keeps that space. -/
def blank : Rule :=
  { name := "blank", filter := .holds fun _ _ => true, replacement := blankReplacement }

def defaultReplacement : Replacement := .ofFunction fun content site _ _ =>
  if site.node.isBlock then Block.apart content else content

/-- Keeps the content and drops the tag. -/
def default : Rule :=
  { name := "default", filter := .holds fun _ _ => true, replacement := defaultReplacement }

def keepReplacement : Replacement := .ofFunction fun _ site _ _ =>
  if site.node.isBlock then Block.apart site.node.outerHtml else site.node.outerHtml

/-- A rule that writes an element as HTML. -/
def keep (filter : Filter) : Rule :=
  { name := "keep", filter, replacement := keepReplacement, rendersChildren := false }

def removeReplacement : Replacement := .ofFunction fun _ _ _ _ => []

/-- A rule that drops an element with its content. -/
def remove (filter : Filter) : Rule :=
  { name := "remove", filter, replacement := removeReplacement, rendersChildren := false }

/-- Drops elements whose content no reader sees. -/
def removals : List Rule :=
  removedTags.map fun tag => { remove (.tags [tag]) with name := "remove-" ++ tag }

end Rule

structure RuleTable where
  priority : Priority := .lastRegistered
  /-- Exclusive rules that overlap are refused. -/
  strict : Bool := false
  /-- Registered rules, in the order in which they are asked. -/
  plugins : List Rule := []
  builtins : List Rule := CommonMark.rules
  kept : List Rule := []
  removed : List Rule := Rule.removals

namespace RuleTable

/-- How many rules convert elements. -/
def count (table : RuleTable) : Nat := table.plugins.length + table.builtins.length

/-- The tags that two rules share, if both claim elements by name. -/
def shared? (rule existing : Rule) : Option (List String) :=
  match rule.tags?, existing.tags? with
  | some a, some b => some (a.filter b.contains)
  | _, _ => none

/-- Whether two rules may claim the same element. -/
def overlap (rule existing : Rule) : Bool := shared? rule existing != some []

/-- The exclusive rules that an exclusive rule overlaps. -/
def rivals (table : RuleTable) (rule : Rule) : List Rule :=
  if rule.exclusive then
    table.plugins.filter fun existing => existing.exclusive && overlap rule existing
  else []

/-- Names in ascending order, each once. -/
def sortedNames (names : List String) : List String :=
  (names.mergeSort fun a b => !(b < a)).eraseDups

/-- The table with a rule put where its priority says. -/
def insert (table : RuleTable) (rule : Rule) : RuleTable :=
  match table.priority with
  | .lastRegistered => { table with plugins := rule :: table.plugins }
  | .firstRegistered => { table with plugins := table.plugins ++ [rule] }

/-- The table with a rule registered, and what is logged of it. -/
def register (table : RuleTable) (rule : Rule) : Except Failure (RuleTable × List Event) :=
  let rivals := table.rivals rule
  match table.strict, rivals with
  | true, rival :: _ =>
    .error (.conflict rule.name rival.name ((shared? rule rival).map sortedNames))
  | _, _ =>
    .ok (table.insert rule,
      rivals.map (fun rival => .ruleOverlap rule.name rival.name) ++ [.ruleRegistered rule.name])

/-- The table with a rule registered that a specification describes. -/
def add (table : RuleTable) (spec : RuleSpec) : Except Failure (RuleTable × List Event) := do
  let rule ← Rule.make spec
  table.register rule

/-- Matching elements are written as HTML. -/
def keep (table : RuleTable) (filter : FilterSpec) : Except Failure RuleTable := do
  let filter ← filter.check "keep"
  pure { table with kept := Rule.keep filter :: table.kept }

/-- Matching elements are dropped together with their content. -/
def remove (table : RuleTable) (filter : FilterSpec) : Except Failure RuleTable := do
  let filter ← filter.check "remove"
  pure { table with removed := Rule.remove filter :: table.removed }

/-- The first rule that claims a site. -/
def firstClaim (site : Site) (o : Options) : List Rule → Except Failure (Option Rule)
  | [] => .ok none
  | rule :: rest =>
    match rule.claims site o with
    | .error failure => .error failure
    | .ok true => .ok (some rule)
    | .ok false => firstClaim site o rest

/-- All rules of a table in the order in which they are asked. -/
def inOrder (table : RuleTable) : List Rule :=
  table.plugins ++ table.builtins ++ table.kept ++ table.removed

/-- The rule that converts a site; `blank` tells whether the element is blank. -/
def find (table : RuleTable) (site : Site) (o : Options) (blank : Bool) : Except Failure Rule :=
  if blank then .ok Rule.blank
  else match firstClaim site o table.inOrder with
    | .error failure => .error failure
    | .ok found => .ok (found.getD Rule.default)

end RuleTable

end Downmark
