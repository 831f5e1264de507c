import Downmark.Options.Choice
import Downmark.Log
/-!
Conversion options: one choice for each dimension of style, and the strict way to make them from
named values.

Main statement: putting the value of a field back changes nothing.
-/

set_option autoImplicit false

namespace Downmark

/-- Style choices for one conversion. -/
structure Options where
  headingStyle : HeadingStyle := .atx
  thematicBreak : BreakMarker := .star
  bulletMarker : BulletMarker := .star
  codeBlockStyle : CodeBlockStyle := .indented
  fence : FenceMarker := .backtick
  emDelimiter : EmDelimiter := .underscore
  strongDelimiter : StrongDelimiter := .stars
  linkStyle : LinkStyle := .inlined
  labelStyle : LabelStyle := .full
  /-- Keep white space as it is inside preformatted text and code. -/
  preformattedCode : Bool := false
  lineBreak : LineBreak := .spaces
deriving DecidableEq, Repr

/-- The dimensions of style. -/
inductive Field where
  | headingStyle
  | thematicBreak
  | bulletMarker
  | codeBlockStyle
  | fence
  | emDelimiter
  | strongDelimiter
  | linkStyle
  | labelStyle
  | preformattedCode
  | lineBreak
deriving DecidableEq, Repr

namespace Field

/-- All fields, in the order in which they are checked. -/
def all : List Field :=
  [.headingStyle, .thematicBreak, .bulletMarker, .codeBlockStyle, .fence, .emDelimiter,
   .strongDelimiter, .linkStyle, .labelStyle, .preformattedCode, .lineBreak]

def name : Field → String
  | .headingStyle => "heading_style"
  | .thematicBreak => "hr"
  | .bulletMarker => "bullet_list_marker"
  | .codeBlockStyle => "code_block_style"
  | .fence => "fence"
  | .emDelimiter => "em_delimiter"
  | .strongDelimiter => "strong_delimiter"
  | .linkStyle => "link_style"
  | .labelStyle => "link_reference_style"
  | .preformattedCode => "preformatted_code"
  | .lineBreak => "br"

def ofName? (name : String) : Option Field := all.find? fun field => field.name == name

/-- The values that a field may take, the default first. -/
def choices : Field → List Value
  | .headingStyle => Choice.values HeadingStyle
  | .thematicBreak => Choice.values BreakMarker
  | .bulletMarker => Choice.values BulletMarker
  | .codeBlockStyle => Choice.values CodeBlockStyle
  | .fence => Choice.values FenceMarker
  | .emDelimiter => Choice.values EmDelimiter
  | .strongDelimiter => Choice.values StrongDelimiter
  | .linkStyle => Choice.values LinkStyle
  | .labelStyle => Choice.values LabelStyle
  | .preformattedCode => Choice.values Bool
  | .lineBreak => Choice.values LineBreak

end Field

namespace Options

/-- The value of a field. -/
def get (o : Options) : Field → Value
  | .headingStyle => Choice.value o.headingStyle
  | .thematicBreak => Choice.value o.thematicBreak
  | .bulletMarker => Choice.value o.bulletMarker
  | .codeBlockStyle => Choice.value o.codeBlockStyle
  | .fence => Choice.value o.fence
  | .emDelimiter => Choice.value o.emDelimiter
  | .strongDelimiter => Choice.value o.strongDelimiter
  | .linkStyle => Choice.value o.linkStyle
  | .labelStyle => Choice.value o.labelStyle
  | .preformattedCode => Choice.value o.preformattedCode
  | .lineBreak => Choice.value o.lineBreak

/-- The options with one field changed, if the value is a choice of that field. -/
def set? (o : Options) (field : Field) (v : Value) : Option Options :=
  match field with
  | .headingStyle => (Choice.ofValue? v).map fun x => { o with headingStyle := x }
  | .thematicBreak => (Choice.ofValue? v).map fun x => { o with thematicBreak := x }
  | .bulletMarker => (Choice.ofValue? v).map fun x => { o with bulletMarker := x }
  | .codeBlockStyle => (Choice.ofValue? v).map fun x => { o with codeBlockStyle := x }
  | .fence => (Choice.ofValue? v).map fun x => { o with fence := x }
  | .emDelimiter => (Choice.ofValue? v).map fun x => { o with emDelimiter := x }
  | .strongDelimiter => (Choice.ofValue? v).map fun x => { o with strongDelimiter := x }
  | .linkStyle => (Choice.ofValue? v).map fun x => { o with linkStyle := x }
  | .labelStyle => (Choice.ofValue? v).map fun x => { o with labelStyle := x }
  | .preformattedCode => (Choice.ofValue? v).map fun x => { o with preformattedCode := x }
  | .lineBreak => (Choice.ofValue? v).map fun x => { o with lineBreak := x }

/-- All fields with their values. -/
def toPairs (o : Options) : List (String × Value) :=
  Field.all.map fun field => (field.name, o.get field)

/-- Takes over the values given for some fields, one field after the other. -/
def setAll (values : List (String × Value)) : List Field → Options → Except Failure Options
  | [], o => .ok o
  | field :: rest, o =>
    match values.lookup field.name with
    | none => setAll values rest o
    | some v =>
      match o.set? field v with
      | some o => setAll values rest o
      | none => .error (.invalid (.choice field.name v field.choices))

/-- The options with the named values changed. A name that no field has is refused first, then the
first field, in order, whose value is none of its choices. -/
def update (o : Options) (pairs : List (String × Value)) : Except Failure Options :=
  let values := ofPairs pairs
  match values.find? fun pair => (Field.ofName? pair.1).isNone with
  | some pair => .error (.unknownField pair.1)
  | none => setAll values Field.all o

/-- Options made from named values, all others being the defaults. -/
def make (pairs : List (String × Value)) : Except Failure Options := update {} pairs

theorem set_get (o : Options) (field : Field) : o.set? field (o.get field) = some o := by
  obtain ⟨a, b, c, d, e, f, g, h, i, j, k⟩ := o
  cases field
  · cases a <;> rfl
  · cases b <;> rfl
  · cases c <;> rfl
  · cases d <;> rfl
  · cases e <;> rfl
  · cases f <;> rfl
  · cases g <;> rfl
  · cases h <;> rfl
  · cases i <;> rfl
  · cases j <;> rfl
  · cases k <;> rfl

end Options

end Downmark
