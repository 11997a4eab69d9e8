-- SUMMARY: The forms of constant data, as attributes hold it.
import HeaderForms.Expr.Dump
import HeaderForms.Expr.ToForm

/-!
# Constant data

The value of an attribute is data that is never evaluated, so an atom is a bare symbol here, a list
is itself, and whatever would need evaluation is refused. A binary is constant when each of its
elements is a plain byte.
-/

namespace HeaderForms

/-- The form of a literal list from its spine. -/
def Spine.literal (spine : Spine) : Form :=
  match spine.items, spine.tail with
  | items, none => .list items
  | [], some form => form
  | items, some tail => .dotted items tail

namespace Expr

/-- The refusal of an expression, which shows its form if it has one. -/
def notLiteral (expr : Expr) : ConvertError :=
  .notLiteral <|
    match expr.toForm with
    | .ok form => form.text
    | .error _ => expr.dump

def byte? : BinElement → Option UInt8
  | .mk (.integer value) none [] =>
    if 0 ≤ value && value < 256 then some (UInt8.ofNat value.toNat) else none
  | _ => none

mutual

def literalSpine : Expr → Converted Spine
  | .nil => .ok ⟨[], none⟩
  | .cons head tail => do
    let head ← literalSpine head
    return (← literalSpine tail).cons head.literal
  | .atom name => .ok (.ending (.symbol name))
  | .integer value => .ok (.ending (.integer value))
  | .float value => .ok (.ending (.float value))
  | .char value => .ok (.ending (.integer value.toNat))
  | .string text => .ok (.ending (.string text))
  | .tuple items => return .ending (.tuple (← literals items))
  | .binary elements =>
    match elements.mapM byte? with
    | some bytes => .ok (.ending (.binary bytes))
    | none => .error (notLiteral (.binary elements))
  | other => .error (notLiteral other)

def literals : List Expr → Converted (List Form)
  | [] => .ok []
  | expr :: exprs => do
    let expr ← literalSpine expr
    return expr.literal :: (← literals exprs)

end

def toLiteral (expr : Expr) : Converted Form := do
  return (← expr.literalSpine).literal

end Expr

end HeaderForms
