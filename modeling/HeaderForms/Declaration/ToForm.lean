-- SUMMARY: The forms of declarations: module attributes and top-level forms.
import HeaderForms.Expr.Literal
import HeaderForms.TypeExpr.ToForm
import HeaderForms.Session

/-!
# Forms of declarations

Each declaration has one outcome: a module attribute, a top-level form, a warning when it has no
form, an error when it could not be read, or nothing. The forms of a header are the outcomes of its
declarations in order.

A record that is declared a second time with types counts once: the declaration without them has no
outcome of its own.
-/

namespace HeaderForms

/-! ## Forms -/

namespace FunctionName

/-- `(name arity)` -/
def toForm (function : FunctionName) : Form :=
  .list [.symbol function.name, .integer function.arity]

end FunctionName

/-- `name`, `(name default)` or `(name default type)`. A typed field without a default has the
default `'undefined`. -/
def RecordFieldDecl.toForm (field : RecordFieldDecl) : Converted Form := do
  let name := Form.symbol field.name
  let default ← field.default.mapM Expr.toForm
  match default, field.type with
  | none, none => return name
  | some default, none => return .list [name, default]
  | default, some type =>
    return .list [name, default.getD (Form.quote (.symbol "undefined")), ← type.toForm]

namespace Declaration

def recordForm (name : String) (fields : List RecordFieldDecl) : Converted Form := do
  return Form.call "defrecord" (.symbol name :: (← fields.mapM RecordFieldDecl.toForm))

def typeForm (head name : String) (params : List String) (definition : TypeExpr) :
    Converted Form := do
  return Form.call head [.list (.symbol name :: params.map .symbol), ← definition.toForm]

def specForm (name : String) (arity : Nat) (signatures : List Signature) : Converted Form := do
  return Form.call "defspec"
    (FunctionName.toForm ⟨name, arity⟩ :: (← signatures.mapM Signature.toForm))

def functionForm (name : String) (clauses : List Clause) : Converted Form := do
  return Form.call "defun" (.symbol name :: (← clauses.mapM Clause.toForm))

def exportsForm (functions : List FunctionName) : Form :=
  Form.call "export" (functions.map FunctionName.toForm)

def importsForm (module : String) (functions : List FunctionName) : Form :=
  Form.call "import" [Form.call "from" (.symbol module :: functions.map FunctionName.toForm)]

def attributeForm (name : String) (value : Expr) : Converted Form := do
  return Form.call name [← value.toLiteral]

/-! ## Outcomes -/

inductive Outcome where
  | attribute (form : Form)
  | topLevel (form : Form)
  | dropped (warning : Warning)
  | failed (error : IncludeError)
  | nothing

namespace Outcome

def attribute? : Outcome → Option Form
  | .attribute form => some form
  | _ => none

def topLevel? : Outcome → Option Form
  | .topLevel form => some form
  | _ => none

/-- The session behind an outcome. -/
def record (session : Session) : Outcome → Session
  | .dropped warning => session.addWarning warning
  | .failed error => session.addError error
  | _ => session

/-- A converted form, or the warning that the item of this head has none. -/
def ofConverted (head : Head) (place : Form → Outcome) : Converted Form → Outcome
  | .ok form => place form
  | .error error => .dropped (.declaration head (.conversion error))

end Outcome

/-- The outcome of a declaration in a header that declares types for the records in
`typedRecords`. -/
def outcome (typedRecords : List String) : Declaration → Outcome
  | .record name fields =>
    if typedRecords.contains name then .nothing
    else Outcome.ofConverted ⟨.record, name, 0⟩ .topLevel (recordForm name fields)
  | .recordType name fields =>
    Outcome.ofConverted ⟨.record, name, 0⟩ .topLevel (recordForm name fields)
  | .type name params definition =>
    Outcome.ofConverted ⟨.type, name, 0⟩ .topLevel (typeForm "deftype" name params definition)
  | .opaqueType name params definition =>
    Outcome.ofConverted ⟨.opaqueType, name, 0⟩ .topLevel
      (typeForm "defopaque" name params definition)
  | .spec name arity signatures =>
    Outcome.ofConverted ⟨.spec, name, arity⟩ .topLevel (specForm name arity signatures)
  | .exports functions => .attribute (exportsForm functions)
  | .imports module functions => .attribute (importsForm module functions)
  | .attribute name value =>
    Outcome.ofConverted ⟨.attribute, name, 0⟩ .attribute (attributeForm name value)
  | .function name arity clauses =>
    Outcome.ofConverted ⟨.function, name, arity⟩ .topLevel (functionForm name clauses)
  | .unsupported head reason => .dropped (.declaration head (.source reason))
  | .unreadable error => .failed (.source error)
  | .ignored _ => .nothing
  | .endOfFile => .nothing

def typedRecord? : Declaration → Option String
  | .recordType name _ => some name
  | _ => none

end Declaration

/-! ## Headers -/

/-- Module attributes and top-level forms, each in the order of their declarations. -/
structure DeclarationForms where
  attributes : List Form
  forms : List Form

namespace DeclarationForms

def outcomes (declarations : List LocatedDeclaration) : List Declaration.Outcome :=
  let typedRecords := declarations.filterMap (·.declaration.typedRecord?)
  declarations.map (·.declaration.outcome typedRecords)

def ofDeclarations (declarations : List LocatedDeclaration) (session : Session) :
    DeclarationForms × Session :=
  let outcomes := outcomes declarations
  (⟨outcomes.filterMap (·.attribute?), outcomes.filterMap (·.topLevel?)⟩,
    outcomes.foldl Declaration.Outcome.record session)

end DeclarationForms

end HeaderForms
