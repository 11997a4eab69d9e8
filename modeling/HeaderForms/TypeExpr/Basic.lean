-- SUMMARY: Type expressions of the header language, and the signatures of specifications.

/-!
# Type expressions

The trees that the type grammar builds. A function type with any arguments and one with a list of
them are constructs of their own, and so is the type of all functions.
-/

namespace HeaderForms

mutual

inductive TypeExpr where
  | var (name : String)
  | atom (name : String)
  | integer (value : Int)
  | nil
  | named (module : Option String) (name : String) (args : List TypeExpr)
  | union (alternatives : List TypeExpr)
  | range (low high : TypeExpr)
  | tuple (items : List TypeExpr)
  | list (item : TypeExpr)
  | nonEmptyList (item : TypeExpr)
  | map (fields : List MapFieldType)
  | anyFun
  | anyArgsFun (result : TypeExpr)
  | fun_ (args : List TypeExpr) (result : TypeExpr)
  | record (name : String) (fields : List FieldType)
  | annotated (name : String) (type : TypeExpr)
  /-- A bit string of `base` bits and any number of `unit`s of bits. -/
  | bitstring (base unit : Int)

inductive MapFieldType where
  | mk (key value : TypeExpr) (exact : Bool)

inductive FieldType where
  | mk (name : String) (type : TypeExpr)

end

instance : Inhabited TypeExpr := ⟨.nil⟩

/-- A type variable and the type it is bound by. -/
structure Constraint where
  var : String
  type : TypeExpr

/-- One signature of a specification. -/
structure Signature where
  args : List TypeExpr
  result : TypeExpr
  constraints : List Constraint

end HeaderForms
