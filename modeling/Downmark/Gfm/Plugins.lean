import Downmark.Plugin.Basic
import Downmark.Gfm.Table
import Downmark.Gfm.Inline
/-!
The bundled plugins: tables, struck text, task lists, highlighted code, and all of them together.
-/

set_option autoImplicit false

namespace Downmark.Gfm

/-- Struck text between two tildes on each side. -/
def strikethroughPlugin : PluginCode :=
  Workbench.register { name := "strikethrough", filter := .tags ["del", "s", "strike"],
                       replacement := strikethrough }

/-- Check boxes of list items as `[ ]` and `[x]`. -/
def taskListPlugin : PluginCode :=
  Workbench.register { name := "task-list-items", filter := .holds fun site _ => isTaskBox site,
                       replacement := taskBox }

/-- Highlighted code as fenced code. -/
def highlightedPlugin : PluginCode :=
  Workbench.register { name := "highlighted-code-block",
                       filter := .holds fun site _ => isHighlighted site.node,
                       replacement := highlightedCode, rendersChildren := false }

/-- Tables with a heading row as pipe tables; all others are kept as HTML. -/
def tablesPlugin : PluginCode := do
  Workbench.keep (.predicate fun site _ => .ok (isPlainTable site))
  Workbench.register { name := "table-cell", filter := .tags ["th", "td"], replacement := cell }
  Workbench.register { name := "table-row", filter := .tags ["tr"], replacement := row }
  Workbench.register { name := "table-section", filter := .tags ["thead", "tbody", "tfoot"],
                       replacement := tableSection }
  Workbench.register { name := "table", filter := .holds fun site _ => isPipeTable site,
                       replacement := table }

/-- All of them. -/
def allPlugin : PluginCode := do
  highlightedPlugin
  strikethroughPlugin
  tablesPlugin
  taskListPlugin

/-- A plugin that comes with the library. -/
def bundle (name description : String) (tags : List String) (code : PluginCode) : Plugin :=
  { name, description, code, author := some "markturn", tags, isBundled := true }

/-- The bundled plugins in the order in which they are registered. -/
def bundled : List Plugin :=
  [bundle "gfm"
     "All GitHub Flavored Markdown rules: tables, strikethrough, task lists, highlighted code"
     ["gfm"] allPlugin,
   bundle "tables" "Convert tables with a header row to pipe tables, keep other tables as HTML"
     ["gfm", "tables"] tablesPlugin,
   bundle "strikethrough" "Convert <del>, <s> and <strike> to ~~text~~" ["gfm", "inline"]
     strikethroughPlugin,
   bundle "task-list-items" "Convert list item checkboxes to [ ] and [x]" ["gfm", "lists"]
     taskListPlugin,
   bundle "highlighted-code-block" "Convert GitHub highlight-source-* blocks to fenced code"
     ["gfm", "code"] highlightedPlugin]

end Downmark.Gfm
