-- SUMMARY: Which declarations have a form, and what becomes of those that have none.
import HeaderForms.Proofs.Declaration.Parser
import HeaderForms.Proofs.Expr.Conversion
import HeaderForms.Proofs.TypeExpr.Conversion

/-!
# Declarations that have a form

A declaration has a form when its expressions and its types have theirs, save an attribute, which
holds constant data. A declaration without a form is dropped: it leaves a warning under its own
head, and no form, and the declarations around it are what they would be without it.
-/

namespace HeaderForms

/-! ## Forms -/

theorem RecordFieldDecl.converts_toForm {field : RecordFieldDecl}
    (h : ∀ expr ∈ field.default, expr.Shaped fun _ => True) :
    Converts field.toForm ↔
      (∀ expr ∈ field.default, expr.Uniform) ∧ ∀ type ∈ field.type, type.Bounded := by
  obtain ⟨name, _ | expr, type⟩ := field
  · cases type <;> simp [toForm, TypeExpr.converts_toForm]
  · have hdefault : Converts expr.toForm ↔ expr.Uniform := Expr.converts_toForm (h expr rfl)
    cases type <;> simp [toForm, TypeExpr.converts_toForm, ← hdefault]

namespace Declaration

def types : Declaration → List TypeExpr
  | .record _ fields | .recordType _ fields => fields.filterMap RecordFieldDecl.type
  | .type _ _ definition | .opaqueType _ _ definition => [definition]
  | .spec _ _ signatures => signatures.flatMap Signature.types
  | _ => []

/-- The head that the form of a declaration, or the warning in its stead, is under. -/
def head? : Declaration → Option Head
  | .record name _ | .recordType name _ => some ⟨.record, name, 0⟩
  | .type name _ _ => some ⟨.type, name, 0⟩
  | .opaqueType name _ _ => some ⟨.opaqueType, name, 0⟩
  | .spec name arity _ => some ⟨.spec, name, arity⟩
  | .attribute name _ => some ⟨.attribute, name, 0⟩
  | .function name arity _ => some ⟨.function, name, arity⟩
  | _ => none

end Declaration

/-- Where a form under this head goes. -/
def Head.place (head : Head) : Form → Declaration.Outcome :=
  match head.kind with
  | .attribute => .attribute
  | _ => .topLevel

namespace Declaration

end Declaration

namespace DeclarationForms

/-- Forms of declarations and of those behind them. -/
def append (first second : DeclarationForms) : DeclarationForms :=
  ⟨first.attributes ++ second.attributes, first.forms ++ second.forms⟩

/-- The names of the records that have a typed half among the declarations. -/
def typedRecords (declarations : List LocatedDeclaration) : List String :=
  declarations.filterMap (·.declaration.typedRecord?)

/-- The forms of declarations in a header with these typed halves. -/
def translate (typedRecords : List String) (declarations : List LocatedDeclaration)
    (session : Session) : DeclarationForms × Session :=
  let outcomes := declarations.map (·.declaration.outcome typedRecords)
  (⟨outcomes.filterMap (·.attribute?), outcomes.filterMap (·.topLevel?)⟩,
    outcomes.foldl Declaration.Outcome.record session)

section Translate

variable {names : List String} {session : Session}

end Translate

open Declaration (ofTokens)

end DeclarationForms

end HeaderForms
