import Downmark.Node.Classes
/-!
Finding all blank elements of a tree with the work that is left held on a stack, so that no step goes
down into the tree.

Nodes are told apart by their marks. A container is met twice, before and after its children. What
was found out about the children waits in a table until their container is left, which takes it out.
-/

set_option autoImplicit false

namespace Downmark.Node

variable {ι : Type}

/-- Of some nodes, whether there is anything to see of them. -/
abbrev Sight (ι : Type) := List (ι × Bool)

namespace Sight

/-- The table without what is known of a node. -/
def erase [DecidableEq ι] (i : ι) (table : Sight ι) : Sight ι := table.filter fun entry => entry.1 != i

def put [DecidableEq ι] (i : ι) (seen : Bool) (table : Sight ι) : Sight ι := (i, seen) :: erase i table

/-- Takes out what is known of some nodes, and tells whether there is anything to see of any of them.
Of a node that is not in the table there is not. -/
def takeAll [DecidableEq ι] : List (Node ι) → Sight ι → Bool × Sight ι
  | [], table => (false, table)
  | n :: rest, table =>
    let seen := (table.lookup n.mark).getD false
    let (more, table) := takeAll rest (erase n.mark table)
    (seen || more, table)

end Sight

/-- What has been found so far. -/
structure BlankSearch (ι : Type) where
  /-- The marks of the blank elements. -/
  blank : List ι := []
  /-- What is known of the nodes whose container has not been left. -/
  sight : Sight ι := []

/-- What is to be done with a node. -/
inductive Visit (ι : Type) where
  | enter (n : Node ι)
  | leave (n : Node ι)

namespace Visit

/-- The work that a visit leads to, itself included. -/
def work : Visit ι → Nat
  | .enter n => 2 * n.size
  | .leave _ => 1

def works : List (Visit ι) → Nat
  | [] => 0
  | visit :: stack => visit.work + works stack

/-- Children are entered from the last one to the first. -/
def enterAll (ks : List (Node ι)) : List (Visit ι) := ks.reverse.map .enter

theorem enterAll_cons (n : Node ι) (rest : List (Node ι)) (stack : List (Visit ι)) :
    enterAll (n :: rest) ++ stack = enterAll rest ++ .enter n :: stack := by
  simp [enterAll]

theorem works_enterAll (ks : List (Node ι)) (stack : List (Visit ι)) :
    works (enterAll ks ++ stack) = 2 * sizes ks + works stack := by
  induction ks generalizing stack with
  | nil => simp [enterAll, sizes]
  | cons n rest ih =>
    rw [enterAll_cons, ih, sizes]
    simp only [works, work]
    omega

end Visit

namespace BlankSearch

/-- What is found out on leaving a container whose children have been settled. -/
def leave [DecidableEq ι] (n : Node ι) (found : BlankSearch ι) : BlankSearch ι :=
  let (seen, sight) := Sight.takeAll n.kids found.sight
  let seen := staysBlankTag n.tag || seen
  { blank := if n.isElement && !seen then n.mark :: found.blank else found.blank
    sight := sight.put n.mark seen }

/-- Does all the work on a stack, the topmost visit coming first. -/
def run [DecidableEq ι] : List (Visit ι) → BlankSearch ι → BlankSearch ι
  | [], found => found
  | .enter (.text i data) :: stack, found =>
    run stack { found with sight := found.sight.put i (!(Text.strip data).isEmpty) }
  | .enter (.comment _ _) :: stack, found => run stack found
  | .enter (.element i t a ks) :: stack, found =>
    run (Visit.enterAll ks ++ .leave (.element i t a ks) :: stack) found
  | .enter (.document i ks) :: stack, found =>
    run (Visit.enterAll ks ++ .leave (.document i ks) :: stack) found
  | .leave n :: stack, found => run stack (leave n found)
termination_by stack => Visit.works stack
decreasing_by
  all_goals simp only [Visit.works_enterAll, Visit.works, Visit.work, Node.size]
  all_goals omega

end BlankSearch

/-- The marks of all blank elements of a tree. -/
def blankElements [DecidableEq ι] (root : Node ι) : List ι := (BlankSearch.run [.enter root] {}).blank

end Downmark.Node
