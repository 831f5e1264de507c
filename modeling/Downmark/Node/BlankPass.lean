import Downmark.Node.Site
/-!
Finding all blank elements of a tree in one pass from the leaves up.
-/

set_option autoImplicit false

namespace Downmark.Node

mutual

/-- Notes on every element whether it is blank. Also tells whether there is anything to see. -/
def markBlank : Marked → Marked × Bool
  | .text m data => (.text m data, !Text.isBlankText data)
  | .comment m data => (.comment m data, false)
  | .document m ks =>
    let (ks, solid) := markAllBlank ks
    (.document m ks, solid)
  | .element m t a ks =>
    let (ks, solid) := markAllBlank ks
    let solid := staysBlankTag t || solid
    (.element { m with blank := !solid } t a ks, solid)

def markAllBlank : List Marked → List Marked × Bool
  | [] => ([], false)
  | n :: rest =>
    let (n, solid) := markBlank n
    let (rest, more) := markAllBlank rest
    (n :: rest, solid || more)

end

end Downmark.Node
