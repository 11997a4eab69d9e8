-- SUMMARY: Forms, diagnostics and outcomes as JSON.
import HeaderForms.Json
import HeaderForms.Session

/-!
# Outcomes as JSON

A form is an object whose only key names its kind. A diagnostic is an object with its line and its
item. The keys of an object stand in their order.
-/

namespace HeaderForms

namespace Form

mutual

def toJson : Form → Json
  | .symbol name => .object [("Symbol", .string name)]
  | .integer value => .object [("Integer", .integer value)]
  | .float value => .object [("Float", .float value)]
  | .string text => .object [("String", .string text)]
  | .list items => .object [("List", .array (jsonItems items))]
  | .dotted items tail =>
    .object [("Dotted", .array [.array (jsonItems items), toJson tail])]
  | .tuple items => .object [("Tuple", .array (jsonItems items))]
  | .binary bytes =>
    .object [("Binary", .array (bytes.map fun byte => .integer byte.toNat))]

def jsonItems : List Form → List Json
  | [] => []
  | form :: forms => toJson form :: jsonItems forms

end

end Form

def IncludeError.toJson : IncludeError → Json
  | .badName body =>
    .object [("error", .string "bad_include_name"), ("form", .string (Form.list body).text)]
  | .missing kind name =>
    .object [("error", .string "no_include"), ("kind", .string kind.name),
      ("name", .string name)]
  | .unread path reason =>
    .object [("error", .string "read"), ("path", .string path), ("reason", .string reason)]
  | .source error =>
    .object [("error", .string "host_parse"), ("line", .integer error.line),
      ("message", .string error.fault.message)]

def MacroArity.toJson : MacroArity → Json
  | .fixed count => .object [("Fixed", .integer count)]
  | .noArgs => .string "NoArgs"

/-- The name of a kind of declaration in JSON. -/
def DeclarationKind.tag : DeclarationKind → String
  | .function => "function"
  | .record => "record"
  | .type => "type"
  | .opaqueType => "opaque"
  | .spec => "spec"
  | .attribute => "attribute"

/-- Whether declarations of a kind are told apart by their arity. -/
def DeclarationKind.hasArity : DeclarationKind → Bool
  | .function => true
  | .spec => true
  | _ => false

def Warning.toJson (warning : Warning) : Json :=
  let reason := Json.string warning.reason.message
  match warning with
  | .declaration head _ =>
    let named :=
      [("kind", .string head.kind.tag), ("name", .string head.name), ("reason", reason)]
    .object (if head.kind.hasArity then ("arity", .integer head.arity) :: named else named)
  | .macroClause name arity _ =>
    .object [("arity", arity.toJson), ("kind", .string "macro"), ("name", .string name),
      ("reason", reason)]

def Located.toJson (item : α → Json) (located : Located α) : Json :=
  .object [("item", item located.item), ("line", .integer located.line)]

end HeaderForms
