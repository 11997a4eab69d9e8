-- SUMMARY: Which expressions have a form, and which are constant data.
import HeaderForms.Expr.Literal
import HeaderForms.Proofs.Converted
import HeaderForms.Proofs.Expr.Nodes

/-!
# Expressions that have a form

An expression has a form unless it holds a map update that sets some of its fields and updates
others, however deep inside. So the conversion fails at such an update only, and it looks at every
part of an expression: whether an expression converts is told by the expression itself and by
whether each of its parts does.

Constant data is told in the same way. It is made of plain values, tuples, lists and binaries of
bytes, and nothing else.
-/

namespace HeaderForms

namespace Expr

/-- A map update that sets fields and updates others. -/
def IsMixedUpdate : Expr → Prop
  | .mapUpdate _ fields =>
    (∃ field ∈ fields, field.exact = true) ∧ ∃ field ∈ fields, field.exact = false
  | _ => False

/-- No map update anywhere in the expression mixes its fields. -/
def Uniform (expr : Expr) : Prop :=
  ∀ inner : Expr, inner.Within expr → ¬ inner.IsMixedUpdate

theorem uniform_iff {expr : Expr} :
    expr.Uniform ↔ ¬ expr.IsMixedUpdate ∧ ∀ part ∈ expr.parts, part.Uniform :=
  forall_within_iff

/-! ## Lists of parts -/

@[simp] theorem converts_forms {exprs : List Expr} :
    Converts (forms exprs) ↔ ∀ expr ∈ exprs, Converts expr.spine := by
  induction exprs with
  | nil => simp [forms]
  | cons expr exprs ih => simp [forms, ih]

@[simp] theorem converts_elementForms {elements : List BinElement} :
    Converts (elementForms elements) ↔
      ∀ part ∈ elements.flatMap BinElement.operands, Converts part.spine := by
  induction elements with
  | nil => simp [elementForms]
  | cons element elements ih =>
    obtain ⟨value, _ | size, _ | ⟨spec, specs⟩⟩ := element
    all_goals simp [elementForms, BinElement.operands, ih]

@[simp] theorem converts_mapForms {fields : List MapField} :
    Converts (mapForms fields) ↔ ∀ part ∈ fields.flatMap MapField.parts, Converts part.spine := by
  induction fields with
  | nil => simp [mapForms]
  | cons field fields ih =>
    obtain ⟨key, value, exact⟩ := field
    simp [mapForms, MapField.parts, ih]

@[simp] theorem converts_fieldForms {fields : List FieldValue} :
    Converts (fieldForms fields) ↔ ∀ value ∈ fields.map FieldValue.value, Converts value.spine := by
  induction fields with
  | nil => simp [fieldForms]
  | cons field fields ih =>
    obtain ⟨name, value⟩ := field
    simp [fieldForms, FieldValue.value, ih]

@[simp] theorem converts_qualifierForms {qualifiers : List Qualifier} :
    Converts (qualifierForms qualifiers) ↔
      ∀ part ∈ qualifiers.flatMap Qualifier.parts, Converts part.spine := by
  induction qualifiers with
  | nil => simp [qualifierForms]
  | cons qualifier qualifiers ih =>
    cases qualifier <;> simp [qualifierForms, Qualifier.parts, ih]

@[simp] theorem converts_guardForms {guards : List (List Expr)} :
    Converts (guardForms guards) ↔ ∀ test ∈ guards.flatten, Converts test.spine := by
  induction guards with
  | nil => simp [guardForms]
  | cons guard guards ih =>
    rw [List.flatten_cons, List.forall_mem_append, ← ih]
    simp [guardForms]

theorem converts_clauseForms {clauses : List Clause} :
    Converts (clauseForms clauses) ↔
      ∀ part ∈ clauses.flatMap Clause.parts, Converts part.spine := by
  induction clauses with
  | nil => simp [clauseForms]
  | cons clause clauses ih =>
    obtain ⟨patterns, guards, body⟩ := clause
    rw [List.flatMap_cons, List.forall_mem_append, ← ih, Clause.forall_mem_parts]
    simp [clauseForms, and_assoc]

theorem converts_caseForms {clauses : List Clause}
    (hpatterns : ∀ clause ∈ clauses, ∃ pattern, clause.patterns = [pattern]) :
    Converts (caseForms clauses) ↔
      ∀ part ∈ clauses.flatMap Clause.parts, Converts part.spine := by
  induction clauses with
  | nil => simp [caseForms]
  | cons clause clauses ih =>
    obtain ⟨⟨pattern, hpattern⟩, hrest⟩ := List.forall_mem_cons.1 hpatterns
    obtain ⟨patterns, guards, body⟩ := clause
    cases hpattern
    rw [List.flatMap_cons, List.forall_mem_append, ← ih hrest, Clause.forall_mem_parts]
    simp [caseForms, and_assoc]

theorem converts_ifForms {clauses : List Clause}
    (hpatterns : ∀ clause ∈ clauses, clause.patterns = []) :
    Converts (ifForms clauses) ↔
      ∀ part ∈ clauses.flatMap Clause.parts, Converts part.spine := by
  induction clauses with
  | nil => simp [ifForms]
  | cons clause clauses ih =>
    obtain ⟨hpattern, hrest⟩ := List.forall_mem_cons.1 hpatterns
    obtain ⟨patterns, guards, body⟩ := clause
    cases hpattern
    rw [List.flatMap_cons, List.forall_mem_append, ← ih hrest, Clause.forall_mem_parts]
    simp [ifForms, and_assoc]

/-! ## Expressions -/

/-- The clauses of the expression itself have the patterns that their construct wants. -/
def Fits : Expr → Prop
  | .case_ _ clauses => ∀ clause ∈ clauses, ∃ pattern, clause.patterns = [pattern]
  | .if_ clauses => ∀ clause ∈ clauses, clause.patterns = []
  | _ => True

theorem ClausesComplete.fits {expr : Expr} (h : expr.ClausesComplete) : expr.Fits := by
  cases expr with
  | case_ subject clauses => exact fun clause hmem => (h.2 clause hmem).2
  | if_ clauses => exact fun clause hmem => (h.2 clause hmem).2.1
  | _ => trivial

theorem converts_mapUpdateHead {base : Expr} {fields : List MapField} :
    Converts (mapUpdateHead fields) ↔ ¬ (mapUpdate base fields).IsMixedUpdate := by
  unfold mapUpdateHead
  split
  case isTrue hall =>
    have hexact : ∀ field ∈ fields, field.exact = true := List.all_eq_true.1 hall
    refine iff_of_true converts_ok ?_
    rintro ⟨-, field, hmem, hset⟩
    exact absurd (hexact field hmem) (by simp [hset])
  case isFalse hsome =>
    split
    case isTrue hall =>
      have hset : ∀ field ∈ fields, field.exact = false := by simpa using hall
      refine iff_of_true converts_ok ?_
      rintro ⟨⟨field, hmem, hexact⟩, -⟩
      exact absurd hexact (by simp [hset field hmem])
    case isFalse hmixed =>
      have hexact : ∃ field ∈ fields, field.exact = true := by simpa using hmixed
      have hset : ∃ field ∈ fields, field.exact = false := by simpa using hsome
      exact iff_of_false not_converts_error (not_not_intro ⟨hexact, hset⟩)

/-- An expression converts when it is no mixed update and each of its parts converts: no part is
passed over, and nothing else can fail. -/
theorem converts_spine_iff {expr : Expr} (hfits : expr.Fits) :
    Converts expr.spine ↔ ¬ expr.IsMixedUpdate ∧ ∀ part ∈ expr.parts, Converts part.spine := by
  cases expr with
  | mapUpdate base fields =>
    rw [← converts_mapUpdateHead, parts, List.forall_mem_cons, ← converts_mapForms]
    simp [spine]
  | call function args =>
    -- An atom in the place of the function is the head of the form and is not converted.
    by_cases hatom : ∃ name, function = .atom name
    · obtain ⟨name, rfl⟩ := hatom
      simp [spine, parts, IsMixedUpdate]
    · have hfuncall : ∀ name, function = .atom name → False := not_exists.1 hatom
      simp [spine, parts, IsMixedUpdate]
  | remoteCall module function args =>
    by_cases hatoms : ∃ m f, module = .atom m ∧ function = .atom f
    · obtain ⟨m, f, rfl, rfl⟩ := hatoms
      simp [spine, parts, IsMixedUpdate]
    · have hcall : ∀ m f, module = .atom m → function = .atom f → False :=
        fun m f hm hf => hatoms ⟨m, f, hm, hf⟩
      simp [spine, parts, IsMixedUpdate]
  | case_ subject clauses =>
    rw [parts, List.forall_mem_cons, ← converts_caseForms hfits]
    simp [spine, IsMixedUpdate]
  | if_ clauses =>
    rw [parts, ← converts_ifForms hfits]
    simp [spine, IsMixedUpdate]
  | fun_ clauses =>
    rw [parts, ← converts_clauseForms]
    simp [spine, IsMixedUpdate]
  | funRef module name arity => cases module <;> simp [spine, parts, IsMixedUpdate]
  | comprehension body qualifiers => simp [spine, parts, IsMixedUpdate, and_comm]
  | _ => simp [spine, parts, IsMixedUpdate]

variable {expr : Expr}

/-- An expression of the grammar converts exactly when no map update in it mixes its fields. The
induction is on shapes, since a clause of a `case` with another number of patterns has no form. -/
theorem converts_spine {good : Lexeme → Prop} (h : expr.Shaped good) :
    Converts expr.spine ↔ expr.Uniform := by
  refine h.induction_nodes (P := fun expr => Converts expr.spine ↔ expr.Uniform) ?_
  intro node hnode hparts
  rw [converts_spine_iff hnode.clauses.fits, uniform_iff]
  exact and_congr_right fun _ => forall₂_congr hparts

theorem converts_toForm {good : Lexeme → Prop} (h : expr.Shaped good) :
    Converts expr.toForm ↔ expr.Uniform := by
  rw [← converts_spine h]
  simp [toForm]

end Expr

theorem Clause.converts_toForm {good : Lexeme → Prop} {clause : Clause}
    (h : ∀ part ∈ clause.parts, part.Shaped good) :
    Converts clause.toForm ↔ ∀ part ∈ clause.parts, part.Uniform := by
  rw [← forall₂_congr fun part hpart => Expr.converts_spine (h part hpart)]
  obtain ⟨patterns, guards, body⟩ := clause
  rw [forall_mem_parts]
  simp [toForm, Clause.patterns, Clause.guards, Clause.body]

/-! ## Constant data -/

/-- An element that is a plain byte, without a size and without types. -/
def BinElement.IsByte : BinElement → Prop
  | .mk (.integer value) none [] => 0 ≤ value ∧ value < 256
  | _ => False

theorem BinElement.isByte_iff {element : BinElement} :
    element.IsByte ↔ ∃ byte, Expr.byte? element = some byte := by
  unfold IsByte Expr.byte?
  split
  case h_1 value => simp
  case h_2 => simp

namespace Expr

/-- Data that stands for itself. -/
inductive IsConstant : Expr → Prop where
  | atom {name : String} : IsConstant (.atom name)
  | integer {value : Int} : IsConstant (.integer value)
  | float {value : Float64} : IsConstant (.float value)
  | char {value : Char} : IsConstant (.char value)
  | string {text : String} : IsConstant (.string text)
  | nil : IsConstant .nil
  | cons {head tail : Expr} (hhead : IsConstant head) (htail : IsConstant tail) :
    IsConstant (.cons head tail)
  | tuple {items : List Expr} (hitems : ∀ item ∈ items, IsConstant item) :
    IsConstant (.tuple items)
  | binary {elements : List BinElement} (hbytes : ∀ element ∈ elements, element.IsByte) :
    IsConstant (.binary elements)

theorem isConstant_cons {head tail : Expr} :
    (cons head tail).IsConstant ↔ head.IsConstant ∧ tail.IsConstant := by
  constructor
  · rintro ⟨⟩
    exact ⟨‹_›, ‹_›⟩
  · exact fun h => .cons h.1 h.2

theorem isConstant_tuple {items : List Expr} :
    (tuple items).IsConstant ↔ ∀ item ∈ items, item.IsConstant := by
  constructor
  · rintro ⟨⟩
    assumption
  · exact .tuple

theorem isConstant_binary {elements : List BinElement} :
    (binary elements).IsConstant ↔ ∀ element ∈ elements, element.IsByte := by
  constructor
  · rintro ⟨⟩
    assumption
  · exact .binary

theorem isSome_mapM_byte? {elements : List BinElement} :
    (elements.mapM byte?).isSome ↔ ∀ element ∈ elements, element.IsByte := by
  induction elements with
  | nil => simp
  | cons element elements ih =>
    rw [List.forall_mem_cons, ← ih, BinElement.isByte_iff, List.mapM_cons]
    cases byte? element <;> cases elements.mapM byte? <;> simp

mutual

/-- An expression is a literal exactly when it is constant data. -/
theorem converts_literalSpine : ∀ expr : Expr, Converts expr.literalSpine ↔ expr.IsConstant
  | .nil => iff_of_true converts_ok .nil
  | .atom _ => iff_of_true converts_ok .atom
  | .integer _ => iff_of_true converts_ok .integer
  | .float _ => iff_of_true converts_ok .float
  | .char _ => iff_of_true converts_ok .char
  | .string _ => iff_of_true converts_ok .string
  | .cons head tail => by
    rw [isConstant_cons, ← converts_literalSpine head, ← converts_literalSpine tail]
    simp [literalSpine]
  | .tuple items => by
    rw [isConstant_tuple, ← converts_literals items]
    simp [literalSpine]
  | .binary elements => by
    rw [isConstant_binary, ← isSome_mapM_byte?, literalSpine]
    cases elements.mapM byte? <;> simp
  | .var _ | .map _ | .mapUpdate .. | .recordNew .. | .recordUpdate .. | .recordField ..
  | .recordIndex .. | .binaryOp .. | .unaryOp .. | .match_ .. | .call .. | .remoteCall ..
  | .block _ | .case_ .. | .if_ _ | .fun_ _ | .funRef .. | .catch_ _ | .comprehension .. =>
    iff_of_false not_converts_error nofun

theorem converts_literals : ∀ exprs : List Expr,
    Converts (literals exprs) ↔ ∀ expr ∈ exprs, expr.IsConstant
  | [] => by simp [literals]
  | expr :: exprs => by
    simp [literals, converts_literalSpine expr, converts_literals exprs]

end

end Expr

end HeaderForms
