import Downmark.Node.Draft
/-!
Flaws of drafts. Main statement: checking a draft gives the flaw of its first flawed node, parents coming before
children and later children before earlier ones, and a tree if no node has a flaw.
-/

set_option autoImplicit false

namespace Downmark.Draft

def dataFlaw (holder : String) : Value → Option Malformed
  | .str _ => none
  | data => some (.data holder data)

def nameFlaw : Value → Option Malformed
  | .str name => if name.isEmpty then some .nameless else none
  | _ => some .nameless

/-- What is wrong with a node itself, whatever is below it. -/
def flaw? : Draft → Option Malformed
  | .text data => dataFlaw "Text" data
  | .comment data => dataFlaw "Comment" data
  | .element name _ _ => nameFlaw name
  | .document _ => none
  | .stray value => some (.stray value)

mutual

/-- A node and all that is below it, parents first, and later children before earlier ones. -/
def scan : Draft → List Draft
  | .text data => [.text data]
  | .comment data => [.comment data]
  | .element name attrs kids => .element name attrs kids :: scanAll kids
  | .document kids => .document kids :: scanAll kids
  | .stray value => [.stray value]

def scanAll : List Draft → List Draft
  | [] => []
  | d :: rest => scanAll rest ++ scan d

end

/-- The flaw of the first node that has one. -/
def firstFlaw? (d : Draft) : Option Malformed := d.scan.findSome? flaw?

/-- Whether a check gives this flaw, or some result if there is none. -/
def Gives {α : Type} (check : Except Malformed α) : Option Malformed → Prop
  | none => ∃ a, check = .ok a
  | some flaw => check = .error flaw

theorem gives_bind {α β : Type} (first : Except Malformed α) (next : α → Except Malformed β)
    (flaw later : Option Malformed) (here : Gives first flaw) (after : ∀ a, Gives (next a) later) :
    Gives (first >>= next) (flaw.or later) := by
  cases flaw with
  | some flaw =>
      have failed : first = .error flaw := here
      rw [failed]
      rfl
  | none =>
      obtain ⟨a, worked⟩ := here
      rw [worked, Option.none_or]
      exact after a

theorem gives_map {α β : Type} (first : Except Malformed α) (f : α → β) (flaw : Option Malformed)
    (here : Gives first flaw) : Gives (first >>= fun a => pure (f a)) flaw := by
  have whole := gives_bind first (fun a => pure (f a)) flaw none here fun a => ⟨f a, rfl⟩
  rwa [Option.or_none] at whole

theorem data_gives (holder : String) (data : Value) : Gives (checkData holder data) (dataFlaw holder data) := by
  cases data with
  | scalar s =>
      cases s with
      | str text => exact ⟨_, rfl⟩
      | _ => rfl
  | list | dict => rfl

theorem name_gives (name : Value) : Gives (checkName name) (nameFlaw name) := by
  cases name with
  | scalar s =>
      cases s with
      | str name =>
          by_cases empty : name.isEmpty <;> simp [checkName, nameFlaw, empty, Gives]
      | _ => rfl
  | list | dict => rfl

mutual

theorem check_gives (d : Draft) : Gives d.check d.firstFlaw? := by
  cases d with
  | text data =>
      have whole := gives_map (checkData "Text" data) (Node.text ()) _ (data_gives "Text" data)
      rwa [show dataFlaw "Text" data = firstFlaw? (.text data) by simp [firstFlaw?, scan, flaw?]] at whole
  | comment data =>
      have whole := gives_map (checkData "Comment" data) (Node.comment ()) _ (data_gives "Comment" data)
      rwa [show dataFlaw "Comment" data = firstFlaw? (.comment data) by simp [firstFlaw?, scan, flaw?]] at whole
  | element name attrs kids =>
      have whole := gives_bind _ _ _ _ (name_gives name) fun tag =>
        gives_map (checkAll kids) (Node.element () tag attrs) _ (check_all_gives kids)
      have first : firstFlaw? (.element name attrs kids) = (nameFlaw name).or ((scanAll kids).findSome? flaw?) := by
        rw [firstFlaw?, scan, List.findSome?_cons, flaw?]
        cases nameFlaw name <;> rfl
      rw [first]
      exact whole
  | document kids =>
      exact gives_map (checkAll kids) (Node.document ()) _ (check_all_gives kids)
  | stray value => exact rfl

theorem check_all_gives (ds : List Draft) : Gives (checkAll ds) ((scanAll ds).findSome? flaw?) := by
  cases ds with
  | nil => exact ⟨[], rfl⟩
  | cons d rest =>
      have whole := gives_bind _ _ _ _ (check_all_gives rest) fun ks =>
        gives_map (check d) (fun k => k :: ks) _ (check_gives d)
      rw [checkAll, scanAll, List.findSome?_append]
      exact whole

end

end Downmark.Draft
