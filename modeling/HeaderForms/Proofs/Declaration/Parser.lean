-- SUMMARY: The declarations that the grammar gives, and the shape of what is in them.
import HeaderForms.Declaration.Parser
import HeaderForms.Proofs.Declaration.Outcome
import HeaderForms.Proofs.Expr.Shape
import HeaderForms.Proofs.TypeExpr.Shape

/-!
# Declarations of the grammar

The grammar gives neither the typed half of a legacy record nor the marks that a header reader puts
between declarations. The expressions and the types of the declarations that it gives have their
shapes, and the clauses of a function and the signatures of a specification agree in their number of
arguments, which is the arity of the declaration.
-/

namespace HeaderForms

/-! ## Shapes -/

structure RecordFieldDecl.Shaped (good : Lexeme → Prop) (field : RecordFieldDecl) : Prop where
  default : ∀ expr ∈ field.default, expr.Shaped good
  type : ∀ type ∈ field.type, type.Shaped good

structure Signature.Shaped (good : Lexeme → Prop) (signature : Signature) : Prop where
  args : ∀ type ∈ signature.args, type.Shaped good
  result : signature.result.Shaped good
  constraints : ∀ constraint ∈ signature.constraints, constraint.type.Shaped good

/-- The arity in a name is that of a token. -/
def FunctionName.Good (good : Lexeme → Prop) (function : FunctionName) : Prop :=
  good (.integer function.arity)

namespace Declaration

/-- The declaration has the shape that the grammar gives it, and the numbers in it are good. -/
inductive Shaped (good : Lexeme → Prop) : Declaration → Prop where
  | record {name : String} {fields : List RecordFieldDecl}
    (hfields : ∀ field ∈ fields, field.Shaped good) : Shaped good (.record name fields)
  | type {name : String} {params : List String} {definition : TypeExpr}
    (hdefinition : definition.Shaped good) : Shaped good (.type name params definition)
  | opaqueType {name : String} {params : List String} {definition : TypeExpr}
    (hdefinition : definition.Shaped good) : Shaped good (.opaqueType name params definition)
  | spec {name : String} {arity : Nat} {signatures : List Signature} (hne : signatures ≠ [])
    (harity : ∀ signature ∈ signatures, signature.args.length = arity)
    (hsignatures : ∀ signature ∈ signatures, signature.Shaped good) :
    Shaped good (.spec name arity signatures)
  | exports {functions : List FunctionName} (hgood : ∀ function ∈ functions, function.Good good) :
    Shaped good (.exports functions)
  | imports {module : String} {functions : List FunctionName}
    (hgood : ∀ function ∈ functions, function.Good good) : Shaped good (.imports module functions)
  | attribute {name : String} {value : Expr} (hvalue : value.Shaped good) :
    Shaped good (.attribute name value)
  | function {name : String} {arity : Nat} {clauses : List Clause} (hne : clauses ≠ [])
    (harity : ∀ clause ∈ clauses, clause.patterns.length = arity)
    (hclauses : ∀ clause ∈ clauses, Parser.ClauseShaped good clause) :
    Shaped good (.function name arity clauses)

def exprs : Declaration → List Expr
  | .record _ fields | .recordType _ fields => fields.filterMap RecordFieldDecl.default
  | .attribute _ value => [value]
  | .function _ _ clauses => clauses.flatMap Clause.parts
  | _ => []

/-- A declaration that tokens can hold, with expressions of the shape that the grammar gives. -/
structure Given (declaration : Declaration) : Prop where
  read : declaration.IsRead
  shaped : ∀ expr ∈ declaration.exprs, expr.Shaped fun _ => True

end Declaration

namespace Parser

variable {good : Lexeme → Prop} {limit : Nat}

/-- All items of a list agree in a number with the first of them. -/
theorem eq_of_not_any {α : Type} {number : α → Nat} {items : List α} {count : Nat}
    (h : ¬ items.any (number · != count) = true) : ∀ item ∈ items, number item = count := by
  simpa using h

/-! ## Records and types -/

theorem keeps_recordFieldDecl :
    Keeps good (recordFieldDecl limit) (RecordFieldDecl.Shaped good) := by
  have htype : ∀ name, ∀ default : Option Expr, (∀ expr ∈ default, expr.Shaped good) →
      Keeps good (do
        let type ← if ← eatPunct .doubleColon then some <$> typeWithin limit else pure none
        return (⟨name, default, type⟩ : RecordFieldDecl)) (RecordFieldDecl.Shaped good) := by
    intro name default hdefault
    have hsome : Keeps good (some <$> typeWithin limit) (fun type =>
        ∀ definition ∈ type, definition.Shaped good) :=
      (keeps_typeWithin limit).map fun definition hdefinition => by simpa using hdefinition
    refine keeps_eatPunct.bind fun typed _ => ?_
    cases typed with
    | true => exact hsome.bind fun type htype => keeps_pure ⟨hdefault, htype⟩
    | false => exact keeps_pure ⟨hdefault, nofun⟩
  have hsome : Keeps good (some <$> exprWithin limit) (fun default =>
      ∀ expr ∈ default, expr.Shaped good) :=
    (keeps_exprWithin limit).map fun expr hexpr => by simpa using hexpr
  refine keeps_expectAtom.bind fun name _ => keeps_eatPunct.bind fun hasDefault _ => ?_
  cases hasDefault with
  | true => exact hsome.bind fun default hdefault => htype name default hdefault
  | false => exact htype name none nofun

theorem keeps_recordDecl : Keeps good (recordDecl limit) (Declaration.Shaped good) := by
  refine keeps_expectPunct.bind fun _ _ => keeps_expectAtom.bind fun name _ => ?_
  refine keeps_expectPunct.bind fun _ _ => keeps_expectPunct.bind fun _ _ => ?_
  refine (keeps_delimited keeps_recordFieldDecl limit).bind fun fields hfields => ?_
  exact keeps_expectPunct.bind fun _ _ => keeps_pure (.record hfields)

theorem keeps_typeDecl {declare : String → List String → TypeExpr → Declaration}
    (h : ∀ name params definition, definition.Shaped good →
      (declare name params definition).Shaped good) :
    Keeps good (typeDecl limit declare) (Declaration.Shaped good) := by
  refine keeps_expectAtom.bind fun name _ => keeps_expectPunct.bind fun _ _ => ?_
  refine (keeps_delimited keeps_expectVar limit).bind fun params _ => ?_
  refine keeps_expectPunct.bind fun _ _ => (keeps_typeWithin limit).bind fun definition hshaped => ?_
  exact keeps_pure (h name params definition hshaped)

/-! ## Specifications -/

theorem keeps_constraint {type : Parser TypeExpr} (h : Keeps good type (TypeExpr.Shaped good)) :
    Keeps good (constraint type) (fun constraint => constraint.type.Shaped good) := by
  have hsubtype : Lexeme.Fits (.atom "is_subtype") := fun _ => nofun
  refine (keeps_eat hsubtype).bind fun isSubtype _ => ?_
  cases isSubtype with
  | true =>
    refine keeps_expectPunct.bind fun _ _ => keeps_expectVar.bind fun var _ => ?_
    refine keeps_expectPunct.bind fun _ _ => h.bind fun bound hbound => ?_
    exact keeps_expectPunct.bind fun _ _ => keeps_pure hbound
  | false =>
    exact keeps_expectVar.bind fun var _ => keeps_expectPunct.bind fun _ _ =>
      h.bind fun bound hbound => keeps_pure hbound

theorem keeps_signature (hlimit : 0 < limit) :
    Keeps good (signature limit) (Signature.Shaped good) := by
  have htype : Keeps good (typeWithin limit) (TypeExpr.Shaped good) := keeps_typeWithin limit
  refine (keeps_typeArguments htype).bind fun args hargs => keeps_expectPunct.bind fun _ _ => ?_
  refine htype.bind fun result hresult => keeps_eatKeyword.bind fun constrained _ => ?_
  cases constrained with
  | true =>
    exact (keeps_separated (keeps_constraint htype) hlimit).bind fun constraints hconstraints =>
      keeps_pure ⟨hargs, hresult, hconstraints.1⟩
  | false => exact keeps_pure ⟨hargs, hresult, List.forall_mem_nil _⟩

theorem keeps_specDecl (hlimit : 0 < limit) :
    Keeps good (specDecl limit) (Declaration.Shaped good) := by
  have hsignatures : ∀ name, Keeps good (do
      let signatures ← separated limit .semicolon (signature limit)
      let arity := (signatures.head?.map (·.args.length)).getD 0
      if signatures.any (·.args.length != arity) then fail (.mixedArities name)
      return .spec name arity signatures) (Declaration.Shaped good) := by
    intro name
    refine (keeps_separated (keeps_signature hlimit) hlimit).bind fun signatures hshaped => ?_
    exact .unless fun hsame => keeps_pure (.spec hshaped.2 (eq_of_not_any hsame) hshaped.1)
  refine keeps_expectAtom.bind fun first _ => keeps_eatPunct.bind fun isRemote _ => ?_
  cases isRemote with
  | true => exact keeps_expectAtom.bind fun name _ => hsignatures name
  | false => exact hsignatures first

/-! ## Exports and imports -/

theorem keeps_functionName : Keeps good functionName (FunctionName.Good good) :=
  keeps_expectAtom.bind fun _ _ => keeps_expectPunct.bind fun _ _ =>
    keeps_expectArity.bind fun _ hgood => keeps_pure hgood

theorem keeps_functionNames :
    Keeps good (functionNames limit) (fun functions =>
      ∀ function ∈ functions, function.Good good) :=
  keeps_expectPunct.bind fun _ _ => keeps_delimited keeps_functionName limit

theorem keeps_exportDecl : Keeps good (exportDecl limit) (Declaration.Shaped good) :=
  keeps_expectPunct.bind fun _ _ => keeps_functionNames.bind fun _ hgood =>
    keeps_expectPunct.bind fun _ _ => keeps_pure (.exports hgood)

theorem keeps_importDecl : Keeps good (importDecl limit) (Declaration.Shaped good) := by
  refine keeps_expectPunct.bind fun _ _ => keeps_expectAtom.bind fun module _ => ?_
  refine keeps_expectPunct.bind fun _ _ => keeps_functionNames.bind fun functions hgood => ?_
  exact keeps_expectPunct.bind fun _ _ => keeps_pure (.imports hgood)

/-! ## Attributes -/

theorem keeps_attributeValue : Keeps good (attributeValue limit) (Expr.Shaped good) := by
  have hvalue : Keeps good (exprWithin limit) (Expr.Shaped good) := keeps_exprWithin limit
  refine keeps_eatPunct.bind fun isWrapped _ => ?_
  cases isWrapped with
  | true =>
    exact hvalue.bind fun value hshaped => keeps_expectPunct.bind fun _ _ => keeps_pure hshaped
  | false => exact hvalue

theorem keeps_attributeBody (hlimit : 0 < limit) (name : String) :
    Keeps good (attributeBody limit name) (Declaration.Shaped good) := by
  unfold attributeBody
  split
  case h_1 => exact keeps_recordDecl
  case h_2 => exact keeps_typeDecl fun _ _ _ hdefinition => .type hdefinition
  case h_3 => exact keeps_typeDecl fun _ _ _ hdefinition => .opaqueType hdefinition
  case h_4 => exact keeps_specDecl hlimit
  case h_5 => exact keeps_exportDecl
  case h_6 => exact keeps_importDecl
  case h_7 => exact keeps_attributeValue.map fun _ hvalue => .attribute hvalue

theorem keeps_openWrap : Keeps good openWrap (fun _ => True) := by
  intro tokens
  refine keepsFrom_peekTwo ?_
  split
  case h_1 => exact keeps_pure trivial tokens
  case h_2 hahead =>
    have hskip : KeepsFrom good tokens (skip 1) (fun _ => good (.punct .openParen)) :=
      keepsFrom_skip (Prod.mk.inj hahead).1 fun _ => nofun
    exact hskip.bind fun _ _ => keeps_pure trivial
  case h_3 => exact keeps_pure trivial tokens

/-- The parenthesis that closes a wrapped attribute is taken behind the attribute. -/
theorem keeps_attributeDecl (hlimit : 0 < limit) :
    Keeps good (attributeDecl limit) (Declaration.Shaped good) := by
  have hbody : ∀ name, ∀ wrapped : Bool, Keeps good (do
      let declaration ← attributeBody limit name
      if wrapped then expectPunct .closeParen
      return declaration) (Declaration.Shaped good) := by
    intro name wrapped
    refine (keeps_attributeBody hlimit name).bind fun declaration hshaped => ?_
    exact .ite (keeps_expectPunct.bind fun _ _ => keeps_pure hshaped) (keeps_pure hshaped)
  refine (keeps_takeAny fun _ => rfl).bind fun name _ => .ite ?_ (hbody name false)
  exact keeps_openWrap.bind fun wrapped _ => hbody name wrapped

/-! ## Functions -/

theorem keeps_namedClause (hlimit : 0 < limit) (function : String) :
    Keeps good (namedClause limit function) (ClauseShaped good) :=
  keeps_expectAtom.bind fun _ _ => .unless fun _ => keeps_funClause hlimit (keeps_exprWithin limit)

theorem keeps_functionDecl (hlimit : 0 < limit) :
    Keeps good (functionDecl limit) (Declaration.Shaped good) := by
  refine keeps_peek.bind fun next _ => ?_
  split
  case h_1 name =>
    refine (keeps_separated (keeps_namedClause hlimit name) hlimit).bind fun clauses hshaped => ?_
    exact .unless fun hsame => keeps_pure (.function hshaped.2 (eq_of_not_any hsame) hshaped.1)
  case h_2 => exact keeps_unexpected

/-- Every declaration that the parser gives has its shape. -/
theorem keeps_declaration (hlimit : 0 < limit) :
    Keeps good (declaration limit) (Declaration.Shaped good) := by
  have hend : ∀ parser, Keeps good parser (Declaration.Shaped good) → Keeps good (do
      let declaration ← parser
      expectEnd
      return declaration) (Declaration.Shaped good) :=
    fun parser h => h.bind fun declaration hshaped => keeps_expectEnd.bind fun _ _ =>
      keeps_pure hshaped
  refine keeps_eatPunct.bind fun minus _ => ?_
  cases minus with
  | true => exact hend _ (keeps_attributeDecl hlimit)
  | false => exact hend _ (keeps_functionDecl hlimit)

end Parser

namespace Declaration

variable {good : Lexeme → Prop} {tokens : List Token} {declaration : Declaration}

theorem parsed_or_unsupported (h : ofTokens tokens = .ok declaration) :
    (∃ rest, Parser.declaration (tokens.length + 1) tokens = .ok (declaration, rest)) ∨
      ∃ head reason, declaration = .unsupported head reason := by
  unfold ofTokens at h
  split at h
  case h_1 found hfound =>
    cases h
    exact .inl (Parser.ok_of_parse hfound)
  case h_2 error _ =>
    split at h
    case h_1 head _ =>
      cases h
      exact .inr ⟨head, error, rfl⟩
    case h_2 => cases h

/-- What is read off tokens is a declaration of the grammar or an unsupported one. -/
theorem shaped_or_unsupported (hgood : ∀ token ∈ tokens, good token.lexeme)
    (h : ofTokens tokens = .ok declaration) :
    declaration.Shaped good ∨ ∃ head reason, declaration = .unsupported head reason :=
  (parsed_or_unsupported h).imp_left fun ⟨_, hok⟩ =>
    (Parser.keeps_declaration (Nat.succ_pos _) tokens hgood hok).1

theorem Shaped.exprs (h : declaration.Shaped good) :
    ∀ expr ∈ declaration.exprs, expr.Shaped good := by
  cases h with
  | record hfields =>
    intro expr hmem
    obtain ⟨field, hfield, hdefault⟩ := List.mem_filterMap.1 hmem
    exact (hfields field hfield).default expr hdefault
  | «attribute» hvalue => exact List.forall_mem_singleton.2 hvalue
  | function _ _ hclauses =>
    exact List.forall_mem_flatMap.2 fun clause hmem => (hclauses clause hmem).2
  | _ => exact List.forall_mem_nil _

theorem Shaped.isRead (h : declaration.Shaped good) : declaration.IsRead := by
  cases h <;> trivial

theorem given_of_ofTokens (h : ofTokens tokens = .ok declaration) : declaration.Given := by
  obtain hshaped | ⟨head, reason, rfl⟩ :=
    @shaped_or_unsupported (fun _ => True) _ _ (fun _ _ => trivial) h
  · exact ⟨hshaped.isRead, hshaped.exprs⟩
  · exact ⟨trivial, List.forall_mem_nil _⟩

theorem isRead_of_ofTokens (h : ofTokens tokens = .ok declaration) : declaration.IsRead :=
  (given_of_ofTokens h).read

end Declaration

end HeaderForms
