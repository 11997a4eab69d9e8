-- SUMMARY: Expressions of the header language, their operators, clauses and qualifiers.
import HeaderForms.Float64.Basic

/-!
# Expressions

The trees that the grammar builds from tokens. Expressions, patterns and guards share one type. A
list is a chain of cells that ends in `nil`, or in any other expression when it is improper.
-/

namespace HeaderForms

/-! ## Operators -/

inductive BinaryOp where
  | send | orelse | andalso
  | equal | differ | atMost | less | atLeast | greater | exactEqual | exactDiffer
  | append | subtract
  | plus | minus | bor | bxor | bsl | bsr | or_ | xor
  | times | divide | div | rem | band | and_
deriving DecidableEq, Repr

def BinaryOp.text : BinaryOp → String
  | .send => "!"
  | .orelse => "orelse"
  | .andalso => "andalso"
  | .equal => "=="
  | .differ => "/="
  | .atMost => "=<"
  | .less => "<"
  | .atLeast => ">="
  | .greater => ">"
  | .exactEqual => "=:="
  | .exactDiffer => "=/="
  | .append => "++"
  | .subtract => "--"
  | .plus => "+"
  | .minus => "-"
  | .bor => "bor"
  | .bxor => "bxor"
  | .bsl => "bsl"
  | .bsr => "bsr"
  | .or_ => "or"
  | .xor => "xor"
  | .times => "*"
  | .divide => "/"
  | .div => "div"
  | .rem => "rem"
  | .band => "band"
  | .and_ => "and"

inductive UnaryOp where
  | plus | minus | not_ | bnot
deriving DecidableEq, Repr

def UnaryOp.text : UnaryOp → String
  | .plus => "+"
  | .minus => "-"
  | .not_ => "not"
  | .bnot => "bnot"

/-! ## Trees -/

mutual

inductive Expr where
  | atom (name : String)
  | var (name : String)
  | integer (value : Int)
  | float (value : Float64)
  | char (value : Char)
  | string (text : String)
  | nil
  | cons (head tail : Expr)
  | tuple (items : List Expr)
  | binary (elements : List BinElement)
  | map (fields : List MapField)
  | mapUpdate (base : Expr) (fields : List MapField)
  | recordNew (name : String) (fields : List FieldValue)
  | recordUpdate (record : Expr) (name : String) (fields : List FieldValue)
  | recordField (record : Expr) (name field : String)
  | recordIndex (name field : String)
  | binaryOp (op : BinaryOp) (left right : Expr)
  | unaryOp (op : UnaryOp) (operand : Expr)
  | match_ (pattern value : Expr)
  | call (function : Expr) (args : List Expr)
  | remoteCall (module function : Expr) (args : List Expr)
  | block (body : List Expr)
  | case_ (subject : Expr) (clauses : List Clause)
  | if_ (clauses : List Clause)
  | fun_ (clauses : List Clause)
  | funRef (module : Option String) (name : String) (arity : Nat)
  | catch_ (body : Expr)
  | comprehension (body : Expr) (qualifiers : List Qualifier)

/-- A clause of a function, a `fun`, a `case` or an `if`. The guards are alternatives, and each is
a conjunction. -/
inductive Clause where
  | mk (patterns : List Expr) (guards : List (List Expr)) (body : List Expr)

/-- A field of a map, `key := value` when it is exact and `key => value` otherwise. -/
inductive MapField where
  | mk (key value : Expr) (exact : Bool)

inductive FieldValue where
  | mk (name : String) (value : Expr)

/-- An element of a binary, with its type specifiers and their units. -/
inductive BinElement where
  | mk (value : Expr) (size : Option Expr) (specs : List (String × Option Int))

inductive Qualifier where
  | generator (pattern source : Expr)
  | bitGenerator (pattern source : Expr)
  | filter (test : Expr)

end

instance : Inhabited Expr := ⟨.nil⟩

namespace Clause

def patterns : Clause → List Expr
  | .mk patterns _ _ => patterns

def guards : Clause → List (List Expr)
  | .mk _ guards _ => guards

def body : Clause → List Expr
  | .mk _ _ body => body

end Clause

def MapField.exact : MapField → Bool
  | .mk _ _ exact => exact

end HeaderForms
