-- SUMMARY: The forms of types and signatures.
import HeaderForms.ConvertError
import HeaderForms.TypeExpr.Basic

/-!
# Forms of types

Every type has a form, save one that holds a range with a bound that is no integer. The name of an
annotated type is documentation and is left out.
-/

namespace HeaderForms

namespace TypeExpr

def applied : Option String → String → String
  | some module, name => module ++ ":" ++ name
  | none, name => name

mutual

def toForm : TypeExpr → Except ConvertError Form
  | .var name => .ok (.symbol name)
  | .atom name => .ok (Form.quote (.symbol name))
  | .integer value => .ok (.integer value)
  | .nil => .ok Form.nil
  | .named module name args => return Form.call (applied module name) (← forms args)
  | .union alternatives => return Form.call "UNION" (← forms alternatives)
  | .range (.integer low) (.integer high) =>
    .ok (Form.call "range" [.integer low, .integer high])
  | .range (.integer _) high => do .error (.rangeBound (← toForm high))
  | .range low _ => do .error (.rangeBound (← toForm low))
  | .tuple items => return Form.call "tuple" (← forms items)
  | .list item => return Form.call "list" [← toForm item]
  | .nonEmptyList item => return Form.call "nonempty-list" [← toForm item]
  | .map fields => return Form.call "map" (← mapForms fields)
  | .anyFun => .ok (Form.call "lambda" [.symbol "any"])
  | .anyArgsFun result => return Form.call "lambda" [.symbol "any", ← toForm result]
  | .fun_ args result => do
    let args ← forms args
    return Form.call "lambda" [.list args, ← toForm result]
  | .record name fields => return Form.call "record" (.symbol name :: (← fieldForms fields))
  | .annotated _ type => toForm type
  | .bitstring base unit => .ok (Form.call "bitstring" [.integer base, .integer unit])

def forms : List TypeExpr → Except ConvertError (List Form)
  | [] => .ok []
  | type :: types => do
    let type ← toForm type
    return type :: (← forms types)

def mapForms : List MapFieldType → Except ConvertError (List Form)
  | [] => .ok []
  | .mk key value _ :: fields => do
    let key ← toForm key
    let value ← toForm value
    return key :: value :: (← mapForms fields)

def fieldForms : List FieldType → Except ConvertError (List Form)
  | [] => .ok []
  | .mk name type :: fields => do
    let type ← toForm type
    return .list [.symbol name, type] :: (← fieldForms fields)

end

end TypeExpr

def Constraint.toForm (constraint : Constraint) : Except ConvertError Form := do
  return .list [.symbol constraint.var, ← constraint.type.toForm]

/-- `((arg...) result)`, with `((var type)...)` behind it when there are constraints. -/
def Signature.toForm (signature : Signature) : Except ConvertError Form := do
  let args ← TypeExpr.forms signature.args
  let result ← signature.result.toForm
  let constraints ← signature.constraints.mapM Constraint.toForm
  return .list (.list args :: result :: if constraints.isEmpty then [] else [.list constraints])

end HeaderForms
