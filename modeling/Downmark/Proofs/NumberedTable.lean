import Downmark.Proofs.NumberedTargets
import Downmark.Proofs.Steady
/-!
Rules that number what links and images lead to without asking for it. Main statement: with them an element is
written by the same rule as with the default rules.
-/

set_option autoImplicit false

namespace Downmark.Render

open Node

-- What follows the text of a link or an image in brackets.
def suffix (number : Target → Chars) (t : Target) : Chars := '[' :: number t ++ [']']

def numberedLink (number : Target → Chars) : Replacement := .ofFunction fun content site _ _ =>
  '[' :: content ++ ']' :: suffix number (site.node.attr "href", Link.title? site.node)

def numberedImage (number : Target → Chars) : Replacement := .ofFunction fun _ site _ _ =>
  if (site.node.attr "src").isEmpty then []
  else '!' :: '[' :: Link.imageText site.node ++
    ']' :: suffix number (site.node.attr "src", Link.title? site.node)

def numberedRule (number : Target → Chars) (rule : Rule) : Rule :=
  if rule.name = "reference-link" then { rule with replacement := numberedLink number }
  else if rule.name = "image" then { rule with replacement := numberedImage number }
  else rule

-- The default rules, but each target has its number.
def numberedTable (number : Target → Chars) : RuleTable := { builtins := CommonMark.rules.map (numberedRule number) }

theorem numbered_claims (number : Target → Chars) (rule : Rule) (site : Site) (o : Options) :
    (numberedRule number rule).claims site o = rule.claims site o := by
  unfold numberedRule
  split_ifs <;> rfl

theorem numbered_renders (number : Target → Chars) (rule : Rule) :
    (numberedRule number rule).rendersChildren = rule.rendersChildren := by
  unfold numberedRule
  split_ifs <;> rfl

theorem numbered_other (number : Target → Chars) (rule : Rule)
    (other : rule.name ≠ "reference-link" ∧ rule.name ≠ "image") : numberedRule number rule = rule := by
  rw [numberedRule, if_neg other.1, if_neg other.2]

theorem numbered_first (number : Target → Chars) (site : Site) (o : Options) (rules : List Rule) :
    RuleTable.firstClaim site o (rules.map (numberedRule number)) =
      (RuleTable.firstClaim site o rules).map (Option.map (numberedRule number)) := by
  induction rules with
  | nil => rfl
  | cons rule rest ih =>
      rw [List.map_cons, RuleTable.firstClaim, RuleTable.firstClaim, numbered_claims, ih]
      cases rule.claims site o with
      | error failure => rfl
      | ok claimed => cases claimed <;> rfl

theorem numbered_order (number : Target → Chars) :
    (numberedTable number).inOrder = ({} : RuleTable).inOrder.map (numberedRule number) := by
  have removals : Rule.removals.map (numberedRule number) = Rule.removals := by
    have other : ∀ rule ∈ Rule.removals, rule.name ≠ "reference-link" ∧ rule.name ≠ "image" := by decide
    exact (List.map_congr_left fun rule member => numbered_other number rule (other rule member)).trans (List.map_id _)
  have kept : ({} : RuleTable).inOrder = CommonMark.rules ++ Rule.removals := by
    simp [RuleTable.inOrder]
  rw [kept, List.map_append, removals]
  simp [RuleTable.inOrder, numberedTable]

theorem numbered_find (number : Target → Chars) (site : Site) (o : Options) (blank : Bool) :
    (numberedTable number).find site o blank = (({} : RuleTable).find site o blank).map (numberedRule number) := by
  cases blank with
  | true => rfl
  | false =>
      rw [RuleTable.find, RuleTable.find, if_neg Bool.false_ne_true, if_neg Bool.false_ne_true, numbered_order,
        numbered_first]
      cases RuleTable.firstClaim site o ({} : RuleTable).inOrder with
      | error failure => rfl
      | ok claimed => cases claimed <;> rfl

end Downmark.Render
