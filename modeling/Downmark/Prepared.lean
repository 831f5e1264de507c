import Downmark.Whitespace.Collapse
import Downmark.Node.BlankPass
import Downmark.ListMarker
/-!
Preparing a tree for rendering: white space is collapsed, blank elements are found, and list items
get their markers, all in one go before the first character is written.
-/

set_option autoImplicit false

namespace Downmark

/-- The tree below a root with everything noted that rendering asks for. -/
def prepare (o : Options) (root : Marked) : Marked :=
  ListMarker.mark o (Node.markBlank (Whitespace.collapse o.preformattedCode root)).1

/-- A site whose own tree is prepared, and whose surroundings are left as they are. -/
def Site.prepared (o : Options) (site : Site) : Site := { site with node := prepare o site.node }

end Downmark
