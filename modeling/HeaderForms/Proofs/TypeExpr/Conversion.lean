-- SUMMARY: Which types have a form.
import HeaderForms.TypeExpr.ToForm
import HeaderForms.Proofs.Converted
import HeaderForms.Proofs.TypeExpr.Shape

/-!
# Types that have a form

A type has a form unless it holds a range with a bound that is no integer, however deep inside. The
name of an annotated type is left out of its form, and the type behind it is not.
-/

namespace HeaderForms

namespace TypeExpr

/-! ## Parts -/

/-- The types that a type is made of. -/
def parts : TypeExpr → List TypeExpr
  | .named _ _ args => args
  | .union alternatives => alternatives
  | .range low high => [low, high]
  | .tuple items => items
  | .list item | .nonEmptyList item => [item]
  | .map fields => fields.flatMap MapFieldType.parts
  | .anyArgsFun result => [result]
  | .fun_ args result => result :: args
  | .record _ fields => fields.map FieldType.type
  | .annotated _ type => [type]
  | .var _ | .atom _ | .integer _ | .nil | .anyFun | .bitstring .. => []

theorem sizeOf_lt_of_mem_parts {part type : TypeExpr} (h : part ∈ type.parts) :
    sizeOf part < sizeOf type := by
  cases type with
  | var | atom | integer | nil | anyFun | bitstring => cases h
  | named _ _ types | union types | tuple types =>
    have hlt : sizeOf part < sizeOf types := List.sizeOf_lt_of_mem h
    simp only [named.sizeOf_spec, union.sizeOf_spec, tuple.sizeOf_spec]
    omega
  | list item | nonEmptyList item | anyArgsFun item | annotated _ item =>
    obtain rfl := List.mem_singleton.1 h
    simp only [list.sizeOf_spec, nonEmptyList.sizeOf_spec, anyArgsFun.sizeOf_spec,
      annotated.sizeOf_spec]
    omega
  | range low high =>
    simp only [parts, List.mem_cons, List.not_mem_nil, or_false] at h
    obtain rfl | rfl := h
    all_goals
      simp only [range.sizeOf_spec]
      omega
  | fun_ args result =>
    simp only [fun_.sizeOf_spec]
    obtain rfl | harg := List.mem_cons.1 h
    · omega
    · have hlt : sizeOf part < sizeOf args := List.sizeOf_lt_of_mem harg
      omega
  | map fields =>
    obtain ⟨⟨key, value, exact⟩, hfield, hpart⟩ := List.mem_flatMap.1 h
    have hlt := List.sizeOf_lt_of_mem hfield
    simp only [MapFieldType.parts, List.mem_cons, List.not_mem_nil, or_false] at hpart
    simp only [MapFieldType.mk.sizeOf_spec] at hlt
    simp only [map.sizeOf_spec]
    obtain rfl | rfl := hpart <;> omega
  | record _ fields =>
    obtain ⟨⟨name, type⟩, hfield, rfl⟩ := List.mem_map.1 h
    have hlt := List.sizeOf_lt_of_mem hfield
    simp only [FieldType.mk.sizeOf_spec] at hlt
    simp only [FieldType.type, record.sizeOf_spec]
    omega

/-- The type itself, or one anywhere inside it. -/
inductive Within (inner : TypeExpr) : TypeExpr → Prop where
  | refl : Within inner inner
  | part {part outer : TypeExpr} (hpart : part ∈ outer.parts) (h : Within inner part) :
    Within inner outer

def IsInteger : TypeExpr → Prop
  | .integer _ => True
  | _ => False

/-- A range with a bound that is no integer. -/
def IsOpenRange : TypeExpr → Prop
  | .range low high => ¬ (low.IsInteger ∧ high.IsInteger)
  | _ => False

/-- The bounds of every range in the type are integers. -/
def Bounded (type : TypeExpr) : Prop :=
  ∀ inner : TypeExpr, inner.Within type → ¬ inner.IsOpenRange

theorem forall_within_iff {P : TypeExpr → Prop} {type : TypeExpr} :
    (∀ inner : TypeExpr, inner.Within type → P inner) ↔
      P type ∧ ∀ part ∈ type.parts, ∀ inner : TypeExpr, inner.Within part → P inner := by
  constructor
  · exact fun h => ⟨h type .refl, fun part hpart inner hinner => h inner (.part hpart hinner)⟩
  · rintro ⟨hself, hparts⟩ inner hinner
    cases hinner with
    | refl => exact hself
    | part hpart hinner => exact hparts _ hpart inner hinner

theorem bounded_iff {type : TypeExpr} :
    type.Bounded ↔ ¬ type.IsOpenRange ∧ ∀ part ∈ type.parts, part.Bounded :=
  forall_within_iff

/-! ## Lists of parts -/

@[simp] theorem converts_forms {types : List TypeExpr} :
    Converts (forms types) ↔ ∀ type ∈ types, Converts type.toForm := by
  induction types with
  | nil => simp [forms]
  | cons type types ih => simp [forms, ih]

@[simp] theorem converts_mapForms {fields : List MapFieldType} :
    Converts (mapForms fields) ↔
      ∀ part ∈ fields.flatMap MapFieldType.parts, Converts part.toForm := by
  induction fields with
  | nil => simp [mapForms]
  | cons field fields ih =>
    obtain ⟨key, value, exact⟩ := field
    simp [mapForms, MapFieldType.parts, ih]

@[simp] theorem converts_fieldForms {fields : List FieldType} :
    Converts (fieldForms fields) ↔ ∀ type ∈ fields.map FieldType.type, Converts type.toForm := by
  induction fields with
  | nil => simp [fieldForms]
  | cons field fields ih =>
    obtain ⟨name, type⟩ := field
    simp [fieldForms, FieldType.type, ih]

/-! ## Types -/

theorem converts_range {low high : TypeExpr} :
    Converts (range low high).toForm ↔ low.IsInteger ∧ high.IsInteger := by
  cases low with
  | integer =>
    cases high with
    | integer => exact iff_of_true converts_ok ⟨trivial, trivial⟩
    | _ => simp [toForm, IsInteger]
  | _ => simp [toForm, IsInteger]

theorem converts_of_isInteger {type : TypeExpr} (h : type.IsInteger) : Converts type.toForm := by
  cases type with
  | integer value => exact converts_ok
  | _ => exact h.elim

/-- A type converts when it is no open range and each of its parts converts. -/
theorem converts_toForm_iff {type : TypeExpr} :
    Converts type.toForm ↔ ¬ type.IsOpenRange ∧ ∀ part ∈ type.parts, Converts part.toForm := by
  cases type with
  | range low high =>
    have hbounds : low.IsInteger ∧ high.IsInteger → Converts low.toForm ∧ Converts high.toForm :=
      fun h => ⟨converts_of_isInteger h.1, converts_of_isInteger h.2⟩
    simpa [converts_range, parts, IsOpenRange] using hbounds
  | fun_ args result => simp [toForm, parts, IsOpenRange, and_comm]
  | _ => simp [toForm, parts, IsOpenRange]

/-- A type has a form exactly when the bounds of every range in it are integers. -/
theorem converts_toForm (type : TypeExpr) : Converts type.toForm ↔ type.Bounded := by
  rw [converts_toForm_iff, bounded_iff]
  exact and_congr_right fun _ => forall₂_congr fun part _ => converts_toForm part
termination_by sizeOf type
decreasing_by exact sizeOf_lt_of_mem_parts ‹_›

end TypeExpr

namespace Signature

/-- The types of a signature, those that its variables are bound by among them. -/
def types (signature : Signature) : List TypeExpr :=
  signature.args ++ signature.result :: signature.constraints.map Constraint.type

theorem converts_toForm {signature : Signature} :
    Converts signature.toForm ↔ ∀ type ∈ signature.types, type.Bounded := by
  have hconstraint : ∀ constraint : Constraint,
      Converts constraint.toForm ↔ Converts constraint.type.toForm := by simp [Constraint.toForm]
  simp only [types, List.forall_mem_append, List.forall_mem_cons, List.forall_mem_map,
    ← TypeExpr.converts_toForm]
  simp [toForm, converts_mapM, hconstraint]

end Signature

end HeaderForms
