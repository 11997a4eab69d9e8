-- SUMMARY: Data: the shape of read text before its literals are given values.
import HeaderForms.Numeral
import HeaderForms.Float64.Decimal
import HeaderForms.Form.Basic

/-!
# Data

Reading a text first finds its shape, a tree of data whose numbers are still text, and only then
gives the numbers their values. So a number out of range is reported only for a text whose shape is
sound, and the leftmost such number is the one reported.
-/

namespace HeaderForms

/-- A number as written. -/
structure Literal where
  text : List Char
  /-- How many characters follow it in the whole text. -/
  after : Nat
deriving DecidableEq, Repr

inductive LiteralKind where
  | byte
  | integer
  | float
deriving DecidableEq, Repr

def LiteralKind.name : LiteralKind → String
  | .byte => "byte"
  | .integer => "integer"
  | .float => "float"

inductive Datum where
  | wrapped (head : String) (inner : Datum)
  | list (items : List Datum)
  | dotted (items : List Datum) (tail : Datum)
  | tuple (items : List Datum)
  | binary (bytes : List Literal)
  | string (text : List Char)
  | float (literal : Literal)
  | integer (literal : Literal)
  | symbol (name : List Char)
deriving Repr

namespace Datum

/-- The value of a literal, if its text has one of that kind. -/
def valued (kind : LiteralKind) (literal : Literal) (value? : List Char → Option α) :
    Except (LiteralKind × Literal) α :=
  match value? literal.text with
  | some value => .ok value
  | none => .error (kind, literal)

mutual

/-- The form of a datum, or its leftmost literal without a value. -/
def form : Datum → Except (LiteralKind × Literal) Form
  | .wrapped head inner => return Form.call head [← form inner]
  | .list items => return .list (← forms items)
  | .dotted items tail => do
    let items ← forms items
    return .dotted items (← form tail)
  | .tuple items => return .tuple (← forms items)
  | .binary bytes => return .binary (← bytes.mapM (valued .byte · Numeral.byte?))
  | .string text => .ok (.string (String.ofList text))
  | .float literal => return .float (← valued .float literal Float64.parse?)
  | .integer literal => return .integer (← valued .integer literal Numeral.int64?)
  | .symbol name => .ok (.symbol (String.ofList name))

def forms : List Datum → Except (LiteralKind × Literal) (List Form)
  | [] => .ok []
  | datum :: data => do
    let form ← form datum
    return form :: (← forms data)

end

end Datum

end HeaderForms
