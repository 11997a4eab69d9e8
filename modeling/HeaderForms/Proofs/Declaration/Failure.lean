-- SUMMARY: What the conversions of expressions, types and declarations fail with.
import HeaderForms.Proofs.Declaration.Conversion

/-!
# Failures of conversions

The conversion of an expression of the grammar fails at a map update that mixes its fields and at
nothing else: the other error that the conversion knows, a clause of a `case` with another number of
patterns than one, has no tokens. Types fail at the bounds of ranges, and attributes where they hold
no constant data. So no declaration of the grammar is dropped for the patterns of a `case`.
-/

namespace HeaderForms

/-! ## Expressions -/

namespace Expr

section Parts

variable {errors : ConvertError → Prop}

theorem failsWith_forms {exprs : List Expr} (h : ∀ expr ∈ exprs, FailsWith errors expr.spine) :
    FailsWith errors (forms exprs) := by
  induction exprs with
  | nil => simp [forms]
  | cons expr exprs ih =>
    obtain ⟨hexpr, hexprs⟩ := List.forall_mem_cons.1 h
    simp [forms, hexpr, ih hexprs]

theorem failsWith_elementForms {elements : List BinElement}
    (h : ∀ part ∈ elements.flatMap BinElement.operands, FailsWith errors part.spine) :
    FailsWith errors (elementForms elements) := by
  induction elements with
  | nil => simp [elementForms]
  | cons element elements ih =>
    rw [List.flatMap_cons, List.forall_mem_append] at h
    have hrest := ih h.2
    obtain ⟨value, _ | size, _ | ⟨spec, specs⟩⟩ := element
    all_goals
      obtain ⟨hvalue, hsize⟩ := List.forall_mem_cons.1 h.1
      simp_all [elementForms]

theorem failsWith_mapForms {fields : List MapField}
    (h : ∀ part ∈ fields.flatMap MapField.parts, FailsWith errors part.spine) :
    FailsWith errors (mapForms fields) := by
  induction fields with
  | nil => simp [mapForms]
  | cons field fields ih =>
    obtain ⟨key, value, exact⟩ := field
    rw [List.flatMap_cons, List.forall_mem_append] at h
    obtain ⟨hkey, hvalue⟩ := List.forall_mem_cons.1 h.1
    simp [mapForms, hkey, List.forall_mem_singleton.1 hvalue, ih h.2]

theorem failsWith_fieldForms {fields : List FieldValue}
    (h : ∀ value ∈ fields.map FieldValue.value, FailsWith errors value.spine) :
    FailsWith errors (fieldForms fields) := by
  induction fields with
  | nil => simp [fieldForms]
  | cons field fields ih =>
    obtain ⟨name, value⟩ := field
    obtain ⟨hvalue, hrest⟩ := List.forall_mem_cons.1 h
    have hvalue : FailsWith errors value.spine := hvalue
    simp [fieldForms, hvalue, ih hrest]

theorem failsWith_qualifierForms {qualifiers : List Qualifier}
    (h : ∀ part ∈ qualifiers.flatMap Qualifier.parts, FailsWith errors part.spine) :
    FailsWith errors (qualifierForms qualifiers) := by
  induction qualifiers with
  | nil => simp [qualifierForms]
  | cons qualifier qualifiers ih =>
    rw [List.flatMap_cons, List.forall_mem_append] at h
    have hrest := ih h.2
    cases qualifier with
    | generator pattern source | bitGenerator pattern source =>
      obtain ⟨hpattern, hsource⟩ := List.forall_mem_cons.1 h.1
      simp [qualifierForms, hpattern, List.forall_mem_singleton.1 hsource, hrest]
    | filter test => simp [qualifierForms, List.forall_mem_singleton.1 h.1, hrest]

theorem failsWith_guardForms {guards : List (List Expr)}
    (h : ∀ test ∈ guards.flatten, FailsWith errors test.spine) :
    FailsWith errors (guardForms guards) := by
  induction guards with
  | nil => simp [guardForms]
  | cons guard guards ih =>
    rw [List.flatten_cons, List.forall_mem_append] at h
    simp [guardForms, failsWith_forms h.1, ih h.2]

theorem failsWith_clauseForms {clauses : List Clause}
    (h : ∀ part ∈ clauses.flatMap Clause.parts, FailsWith errors part.spine) :
    FailsWith errors (clauseForms clauses) := by
  induction clauses with
  | nil => simp [clauseForms]
  | cons clause clauses ih =>
    obtain ⟨patterns, guards, body⟩ := clause
    rw [List.flatMap_cons, List.forall_mem_append, Clause.forall_mem_parts] at h
    obtain ⟨⟨hpatterns, hguards, hbody⟩, hrest⟩ := h
    simp [clauseForms, failsWith_forms hpatterns, failsWith_guardForms hguards,
      failsWith_forms hbody, ih hrest]

theorem failsWith_caseForms {clauses : List Clause}
    (hpatterns : ∀ clause ∈ clauses, ∃ pattern, clause.patterns = [pattern])
    (h : ∀ part ∈ clauses.flatMap Clause.parts, FailsWith errors part.spine) :
    FailsWith errors (caseForms clauses) := by
  induction clauses with
  | nil => simp [caseForms]
  | cons clause clauses ih =>
    obtain ⟨⟨pattern, hpattern⟩, hothers⟩ := List.forall_mem_cons.1 hpatterns
    obtain ⟨patterns, guards, body⟩ := clause
    cases hpattern
    rw [List.flatMap_cons, List.forall_mem_append, Clause.forall_mem_parts] at h
    obtain ⟨⟨hpattern, hguards, hbody⟩, hrest⟩ := h
    simp [caseForms, List.forall_mem_singleton.1 hpattern, failsWith_guardForms hguards,
      failsWith_forms hbody, ih hothers hrest]

theorem failsWith_ifForms {clauses : List Clause}
    (h : ∀ part ∈ clauses.flatMap Clause.parts, FailsWith errors part.spine) :
    FailsWith errors (ifForms clauses) := by
  induction clauses with
  | nil => simp [ifForms]
  | cons clause clauses ih =>
    obtain ⟨patterns, guards, body⟩ := clause
    rw [List.flatMap_cons, List.forall_mem_append, Clause.forall_mem_parts] at h
    obtain ⟨⟨-, hguards, hbody⟩, hrest⟩ := h
    simp [ifForms, failsWith_guardForms hguards, failsWith_forms hbody, ih hrest]

/-- The expression itself can fail as a mixed update only, and otherwise its parts do. -/
theorem failsWith_spine_of_parts {expr : Expr} (hmixed : errors .mixedMapUpdate)
    (hfits : expr.Fits) (hparts : ∀ part ∈ expr.parts, FailsWith errors part.spine) :
    FailsWith errors expr.spine := by
  cases expr with
  | atom | var | integer | float | char | string | nil | recordIndex => simp [spine]
  | funRef module => cases module <;> simp [spine]
  | tuple items | block items =>
    have hforms : FailsWith errors (forms items) := failsWith_forms hparts
    simp [spine, hforms]
  | binary elements => simp [spine, failsWith_elementForms hparts]
  | map fields => simp [spine, failsWith_mapForms hparts]
  | recordNew name fields => simp [spine, failsWith_fieldForms hparts]
  | recordField item | unaryOp op item | catch_ item =>
    simp [spine, List.forall_mem_singleton.1 hparts]
  | cons left right | binaryOp op left right | match_ left right =>
    obtain ⟨hleft, hright⟩ := List.forall_mem_cons.1 hparts
    simp [spine, hleft, List.forall_mem_singleton.1 hright]
  | mapUpdate base fields =>
    obtain ⟨hbase, hfields⟩ := List.forall_mem_cons.1 hparts
    have hhead : FailsWith errors (mapUpdateHead fields) := by
      unfold mapUpdateHead
      split
      case isTrue => simp
      case isFalse => split <;> simp [hmixed]
    simp [spine, hhead, hbase, failsWith_mapForms hfields]
  | recordUpdate record name fields =>
    obtain ⟨hrecord, hfields⟩ := List.forall_mem_cons.1 hparts
    simp [spine, hrecord, failsWith_fieldForms hfields]
  | call function args =>
    obtain ⟨hfunction, hargs⟩ := List.forall_mem_cons.1 hparts
    have hargs := failsWith_forms hargs
    unfold spine
    split <;> simp_all
  | remoteCall module function args =>
    obtain ⟨hmodule, hparts⟩ := List.forall_mem_cons.1 hparts
    obtain ⟨hfunction, hargs⟩ := List.forall_mem_cons.1 hparts
    have hargs := failsWith_forms hargs
    unfold spine
    split <;> simp_all
  | case_ subject clauses =>
    obtain ⟨hsubject, hclauses⟩ := List.forall_mem_cons.1 hparts
    simp [spine, hsubject, failsWith_caseForms hfits hclauses]
  | if_ clauses => simp [spine, failsWith_ifForms hparts]
  | fun_ clauses => simp [spine, failsWith_clauseForms hparts]
  | comprehension body qualifiers =>
    obtain ⟨hbody, hqualifiers⟩ := List.forall_mem_cons.1 hparts
    simp [spine, failsWith_qualifierForms hqualifiers, hbody]

end Parts

variable {good : Lexeme → Prop} {expr : Expr}

theorem Shaped.failsWith_spine (h : expr.Shaped good) :
    FailsWith (· = .mixedMapUpdate) expr.spine :=
  h.induction_nodes (P := fun expr => FailsWith (· = .mixedMapUpdate) expr.spine)
    fun _ hnode hparts => failsWith_spine_of_parts rfl hnode.clauses.fits hparts

/-- The form of an expression of the grammar fails at a mixed update only. -/
theorem Shaped.failsWith_toForm (h : expr.Shaped good) :
    FailsWith (· = .mixedMapUpdate) expr.toForm := by
  simp [toForm, h.failsWith_spine]

theorem Shaped.failsWith_formsOf {exprs : List Expr} (h : ∀ expr ∈ exprs, expr.Shaped good) :
    FailsWith (· = .mixedMapUpdate) (forms exprs) :=
  failsWith_forms fun expr hmem => (h expr hmem).failsWith_spine

/-! ## Constant data -/

mutual

theorem failsWith_literalSpine : ∀ expr : Expr,
    FailsWith (fun error => ∃ shown, error = .notLiteral shown) expr.literalSpine
  | .nil | .atom _ | .integer _ | .float _ | .char _ | .string _ => by simp [literalSpine]
  | .cons head tail => by
    simp [literalSpine, failsWith_literalSpine head, failsWith_literalSpine tail]
  | .tuple items => by simp [literalSpine, failsWith_literals items]
  | .binary elements => by
    unfold literalSpine
    split <;> simp [notLiteral]
  | .var _ | .map _ | .mapUpdate .. | .recordNew .. | .recordUpdate .. | .recordField ..
  | .recordIndex .. | .binaryOp .. | .unaryOp .. | .match_ .. | .call .. | .remoteCall ..
  | .block _ | .case_ .. | .if_ _ | .fun_ _ | .funRef .. | .catch_ _ | .comprehension .. =>
    failsWith_error.2 ⟨_, rfl⟩

theorem failsWith_literals : ∀ exprs : List Expr,
    FailsWith (fun error => ∃ shown, error = .notLiteral shown) (literals exprs)
  | [] => by simp [literals]
  | expr :: exprs => by
    simp [literals, failsWith_literalSpine expr, failsWith_literals exprs]

end

end Expr

theorem Clause.failsWith_toForm {good : Lexeme → Prop} {clause : Clause}
    (h : ∀ part ∈ clause.parts, part.Shaped good) :
    FailsWith (· = .mixedMapUpdate) clause.toForm := by
  obtain ⟨patterns, guards, body⟩ := clause
  obtain ⟨hpatterns, hguards, hbody⟩ := Clause.forall_mem_parts.1 h
  have hguardForms : FailsWith (· = .mixedMapUpdate) (Expr.guardForms guards) :=
    Expr.failsWith_guardForms fun test hmem => (hguards test hmem).failsWith_spine
  simp [toForm, Clause.patterns, Clause.guards, Clause.body, hguardForms,
    Expr.Shaped.failsWith_formsOf hpatterns, Expr.Shaped.failsWith_formsOf hbody]

/-! ## Types -/

/-- The errors that the conversion of a type knows. -/
def ConvertError.IsRangeBound (error : ConvertError) : Prop :=
  ∃ bound, error = .rangeBound bound

namespace TypeExpr

mutual

theorem failsWith_toForm : ∀ type : TypeExpr, FailsWith ConvertError.IsRangeBound type.toForm
  | .var _ | .atom _ | .integer _ | .nil | .anyFun | .bitstring .. => by simp [toForm]
  | .named _ _ types | .union types | .tuple types => by simp [toForm, failsWith_forms types]
  | .range low high => by
    have hlow : FailsWith ConvertError.IsRangeBound low.toForm := failsWith_toForm low
    have hhigh : FailsWith ConvertError.IsRangeBound high.toForm := failsWith_toForm high
    cases low with
    | integer =>
      cases high with
      | integer => simp [toForm]
      | _ => exact failsWith_bind.2 ⟨hhigh, fun bound _ => failsWith_error.2 ⟨bound, rfl⟩⟩
    | _ => exact failsWith_bind.2 ⟨hlow, fun bound _ => failsWith_error.2 ⟨bound, rfl⟩⟩
  | .list item | .nonEmptyList item | .anyArgsFun item | .annotated _ item => by
    simp [toForm, failsWith_toForm item]
  | .map fields => by simp [toForm, failsWith_mapForms fields]
  | .fun_ args result => by simp [toForm, failsWith_forms args, failsWith_toForm result]
  | .record _ fields => by simp [toForm, failsWith_fieldForms fields]

theorem failsWith_forms : ∀ types : List TypeExpr,
    FailsWith ConvertError.IsRangeBound (forms types)
  | [] => by simp [forms]
  | type :: types => by simp [forms, failsWith_toForm type, failsWith_forms types]

theorem failsWith_mapForms : ∀ fields : List MapFieldType,
    FailsWith ConvertError.IsRangeBound (mapForms fields)
  | [] => by simp [mapForms]
  | .mk key value _ :: fields => by
    simp [mapForms, failsWith_toForm key, failsWith_toForm value, failsWith_mapForms fields]

theorem failsWith_fieldForms : ∀ fields : List FieldType,
    FailsWith ConvertError.IsRangeBound (fieldForms fields)
  | [] => by simp [fieldForms]
  | .mk _ type :: fields => by
    simp [fieldForms, failsWith_toForm type, failsWith_fieldForms fields]

end

end TypeExpr

theorem Signature.failsWith_toForm (signature : Signature) :
    FailsWith ConvertError.IsRangeBound signature.toForm := by
  have hconstraints : FailsWith ConvertError.IsRangeBound
      (signature.constraints.mapM Constraint.toForm) :=
    failsWith_mapM fun constraint _ => by
      simp [Constraint.toForm, TypeExpr.failsWith_toForm constraint.type]
  simp [toForm, TypeExpr.failsWith_forms, TypeExpr.failsWith_toForm, hconstraints]

/-! ## Declarations -/

/-- The error is not about the patterns of a clause. -/
def ConvertError.SparesPatterns (error : ConvertError) : Prop :=
  ∀ count, error ≠ .casePatterns count

namespace Declaration

variable {good : Lexeme → Prop} {declaration : Declaration}

theorem spares_of_mixed {α : Type} {converted : Converted α}
    (h : FailsWith (· = .mixedMapUpdate) converted) :
    FailsWith ConvertError.SparesPatterns converted :=
  h.mono fun _ herror _ => herror ▸ nofun

theorem spares_of_rangeBound {α : Type} {converted : Converted α}
    (h : FailsWith ConvertError.IsRangeBound converted) :
    FailsWith ConvertError.SparesPatterns converted := by
  refine h.mono ?_
  rintro _ ⟨bound, rfl⟩ count
  nofun

theorem spares_recordField {field : RecordFieldDecl} (h : field.Shaped good) :
    FailsWith ConvertError.SparesPatterns field.toForm := by
  have hdefault : ∀ expr ∈ field.default, FailsWith ConvertError.SparesPatterns expr.toForm :=
    fun expr hmem => spares_of_mixed (h.default expr hmem).failsWith_toForm
  have htype : ∀ type : TypeExpr, FailsWith ConvertError.SparesPatterns type.toForm :=
    fun type => spares_of_rangeBound type.failsWith_toForm
  obtain ⟨name, _ | expr, _ | type⟩ := field
  · simp [RecordFieldDecl.toForm]
  · simp [RecordFieldDecl.toForm, htype]
  · simp [RecordFieldDecl.toForm, hdefault expr rfl]
  · simp [RecordFieldDecl.toForm, hdefault expr rfl, htype]

/-- A form that fails otherwise is not missing for the patterns of a clause. -/
theorem ofConverted_ne_casePatterns {head head' : Head} {place : Form → Outcome}
    {converted : Converted Form} {count : Nat}
    (hplace : ∀ form warning, place form ≠ .dropped warning)
    (h : FailsWith ConvertError.SparesPatterns converted) :
    Outcome.ofConverted head place converted ≠
      .dropped (.declaration head' (.conversion (.casePatterns count))) := by
  cases converted with
  | ok form => exact hplace form _
  | error error =>
    intro heq
    cases heq
    exact h _ rfl count rfl

/-- No declaration of the grammar is dropped for the patterns of a `case`. -/
theorem Shaped.outcome_ne_casePatterns (h : declaration.Shaped good) {typedRecords : List String}
    {head : Head} {count : Nat} : declaration.outcome typedRecords ≠
      .dropped (.declaration head (.conversion (.casePatterns count))) := by
  have htopLevel : ∀ form warning, Outcome.topLevel form ≠ .dropped warning := by simp
  have hattribute : ∀ form warning, Outcome.attribute form ≠ .dropped warning := by simp
  cases h with
  | record hfields =>
    have hforms := failsWith_mapM fun field hmem => spares_recordField (hfields field hmem)
    simp only [outcome]
    split
    case isTrue =>
      intro heq
      cases heq
    case isFalse => exact ofConverted_ne_casePatterns htopLevel (by simp [recordForm, hforms])
  | @type _ _ definition | @opaqueType _ _ definition =>
    have hform := spares_of_rangeBound definition.failsWith_toForm
    exact ofConverted_ne_casePatterns htopLevel (by simp [typeForm, hform])
  | @spec _ _ signatures =>
    have hforms : FailsWith ConvertError.SparesPatterns (signatures.mapM Signature.toForm) :=
      failsWith_mapM fun signature _ => spares_of_rangeBound signature.failsWith_toForm
    exact ofConverted_ne_casePatterns htopLevel (by simp [specForm, hforms])
  | exports | imports =>
    intro heq
    cases heq
  | @«attribute» _ value =>
    have hform : FailsWith ConvertError.SparesPatterns value.literalSpine := by
      refine value.failsWith_literalSpine.mono ?_
      rintro _ ⟨shown, rfl⟩ count heq
      cases heq
    exact ofConverted_ne_casePatterns hattribute
      (by simp [attributeForm, Expr.toLiteral, hform])
  | function _ _ hclauses =>
    have hforms := failsWith_mapM fun clause hmem =>
      spares_of_mixed (Clause.failsWith_toForm (hclauses clause hmem).2)
    exact ofConverted_ne_casePatterns htopLevel (by simp [functionForm, hforms])

end Declaration

end HeaderForms
