import Downmark.Text.Basic
/-!
Joining two pieces of output. The newlines where they meet are merged: the longer of the two runs
stands, and never more than one blank line.
-/

set_option autoImplicit false

namespace Downmark

/-- Two pieces of output, one after the other. -/
def join (output next : Chars) : Chars :=
  let left := Text.trimEnd Text.isNewline output
  let right := Text.trimStart Text.isNewline next
  let newlines := max (output.length - left.length) (next.length - right.length)
  left ++ List.replicate (min 2 newlines) '\n' ++ right

end Downmark
