-- SUMMARY: Why a declaration, an expression or a type has no form.
import HeaderForms.Form.Printer

/-!
# Conversion errors

An expression or a type that has no form is either a construct that the macro language lacks or, for
the value of an attribute, no constant data.
-/

namespace HeaderForms

inductive ConvertError where
  | mixedMapUpdate
  | casePatterns (count : Nat)
  | rangeBound (bound : Form)
  | notLiteral (shown : String)
deriving Repr

def ConvertError.message : ConvertError → String
  | .mixedMapUpdate => "unsupported construct: map update mixing '=>' and ':='"
  | .casePatterns count => s!"unsupported construct: case clause with {count} patterns"
  | .rangeBound bound => "unsupported construct: range bound " ++ bound.text
  | .notLiteral shown => "not a literal: " ++ shown

end HeaderForms
