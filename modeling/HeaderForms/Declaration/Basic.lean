-- SUMMARY: Declarations of a header, and what is left of one that cannot be read.
import HeaderForms.SourceError
import HeaderForms.Expr.Basic
import HeaderForms.TypeExpr.Basic

/-!
# Declarations

A header is a sequence of declarations, each closed by an end marker. One whose head is sound and
whose body is not is kept as unsupported, with what its head says of it; one without a usable head
is kept as a source error. So each declaration of the text leaves exactly one behind, save a typed
record in the legacy encoding, which leaves two.
-/

namespace HeaderForms

structure RecordFieldDecl where
  name : String
  default : Option Expr
  type : Option TypeExpr

/-- A function by name and arity, as export and import lists hold it. -/
structure FunctionName where
  name : String
  arity : Nat
deriving DecidableEq, Repr

inductive DeclarationKind where
  | function | record | type | opaqueType | spec | attribute
deriving DecidableEq, Repr

/-- What the first tokens of a declaration say of it. -/
structure Head where
  kind : DeclarationKind
  name : String
  arity : Nat
deriving DecidableEq, Repr

inductive Declaration where
  | record (name : String) (fields : List RecordFieldDecl)
  /-- The typed half of a record in the legacy encoding. -/
  | recordType (name : String) (fields : List RecordFieldDecl)
  | type (name : String) (params : List String) (definition : TypeExpr)
  | opaqueType (name : String) (params : List String) (definition : TypeExpr)
  | spec (name : String) (arity : Nat) (signatures : List Signature)
  | exports (functions : List FunctionName)
  | imports (module : String) (functions : List FunctionName)
  | attribute (name : String) (value : Expr)
  | function (name : String) (arity : Nat) (clauses : List Clause)
  | unsupported (head : Head) (reason : SourceError)
  | unreadable (error : SourceError)
  /-- A preprocessor directive that is recognised and not interpreted. -/
  | ignored (directive : String)
  | endOfFile

/-- A declaration with the line it starts on. -/
structure LocatedDeclaration where
  line : Nat
  declaration : Declaration

end HeaderForms
