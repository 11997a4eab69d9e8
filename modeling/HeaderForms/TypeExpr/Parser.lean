-- SUMMARY: The type grammar.
import HeaderForms.Token.Parser
import HeaderForms.TypeExpr.Basic

/-!
# Type grammar

A type is a union of alternatives. An alternative is an annotated type, whose name reaches over the
whole union behind it, a range between two primary types, or a primary type.

The parameters `limit` and `nested` are those of the expression grammar: a bound on the tokens that
are left, and the parser of a type at the outermost level.
-/

namespace HeaderForms

namespace Parser

/-! ## Parts -/

def typeArguments (limit : Nat) (nested : Parser TypeExpr) : Parser (List TypeExpr) := do
  expectPunct .openParen
  delimited limit .closeParen nested

def typeArrow? : Lexeme → Option Bool
  | .punct .rightDoubleArrow => some false
  | .punct .colonEquals => some true
  | _ => none

def mapFieldType (nested : Parser TypeExpr) : Parser MapFieldType := do
  let key ← nested
  let exact ← take .mapArrow typeArrow?
  return .mk key (← nested) exact

def fieldType (nested : Parser TypeExpr) : Parser FieldType := do
  let name ← expectAtom
  expectPunct .doubleColon
  return .mk name (← nested)

/-- What follows an atom: the arguments of a type with that name, those of a type in the module
with that name, or nothing. -/
def namedRest (limit : Nat) (nested : Parser TypeExpr) (name : String) : Parser TypeExpr := do
  if ← atPunct .openParen then
    return .named none name (← typeArguments limit nested)
  if ← eatPunct .colon then
    let remote ← expectAtom
    return .named (some name) remote (← typeArguments limit nested)
  return .atom name

/-- What follows a `[`. -/
def listTypeRest (nested : Parser TypeExpr) : Parser TypeExpr := do
  if ← eatPunct .closeBracket then return .nil
  let item ← nested
  if ← eatPunct .comma then
    expectPunct .ellipsis
    expectPunct .closeBracket
    return .nonEmptyList item
  expectPunct .closeBracket
  return .list item

/-- What follows a `#`. -/
def hashTypeRest (limit : Nat) (nested : Parser TypeExpr) : Parser TypeExpr := do
  if ← eatPunct .openBrace then
    return .map (← delimited limit .closeBrace (mapFieldType nested))
  let name ← expectAtom
  expectPunct .openBrace
  return .record name (← delimited limit .closeBrace (fieldType nested))

/-- What follows a `fun`. -/
def funTypeRest (limit : Nat) (nested : Parser TypeExpr) : Parser TypeExpr := do
  expectPunct .openParen
  if ← eatPunct .closeParen then return .anyFun
  expectPunct .openParen
  if ← eatPunct .ellipsis then
    expectPunct .closeParen
    .anyArgsFun <$> result
  else
    let args ← delimited limit .closeParen nested
    .fun_ args <$> result
where
  result : Parser TypeExpr := do
    expectPunct .arrow
    let type ← nested
    expectPunct .closeParen
    return type

/-- A segment of a bit string type: its base size, or the unit it repeats. -/
inductive BitSegment where
  | base (bits : Int)
  | unit (bits : Int)

def bitSegment : Parser BitSegment := do
  let _ ← expectVar
  expectPunct .colon
  match ← take? varName? with
  | some _ =>
    expectPunct .star
    .unit <$> expectInteger
  | none => .base <$> expectInteger

/-- A later segment replaces an earlier one of its kind. -/
def bitstring (segments : List BitSegment) : TypeExpr :=
  let (base, unit) := segments.foldl (fun (base, unit) segment =>
    match segment with
    | .base bits => (bits, unit)
    | .unit bits => (base, bits)) (0, 0)
  .bitstring base unit

/-- What follows a `<<`. -/
def bitstringRest (limit : Nat) : Parser TypeExpr := do
  if ← eatPunct .closeBinary then return .bitstring 0 0
  let segments ← separated limit .comma bitSegment
  expectPunct .closeBinary
  return bitstring segments

/-! ## Types -/

def primaryType (limit : Nat) (nested : Parser TypeExpr) : Parser TypeExpr := do
  match ← peek with
  | some (.var name) => skip 1; return .var name
  | some (.integer _) => .integer <$> expectInteger
  | some (.punct .minus) => .integer <$> expectInteger
  | some (.char value) => skip 1; return .integer value.toNat
  | some (.atom name) => skip 1; namedRest limit nested name
  | some (.punct .openParen) =>
    skip 1
    let type ← nested
    expectPunct .closeParen
    return type
  | some (.punct .openBracket) => skip 1; listTypeRest nested
  | some (.punct .openBrace) =>
    skip 1
    return .tuple (← delimited limit .closeBrace nested)
  | some (.punct .hash) => skip 1; hashTypeRest limit nested
  | some (.keyword .fun_) => skip 1; funTypeRest limit nested
  | some (.punct .openBinary) => skip 1; bitstringRest limit
  | _ => unexpected .type

def alternativeType (limit : Nat) (nested : Parser TypeExpr) : Parser TypeExpr := do
  match ← peekTwo with
  | (some (.var name), some (.punct .doubleColon)) =>
    skip 2
    return .annotated name (← nested)
  | _ =>
    let low ← primaryType limit nested
    if ← eatPunct .range then return .range low (← primaryType limit nested)
    return low

def union : List TypeExpr → TypeExpr
  | [type] => type
  | types => .union types

def typeWithin : Nat → Parser TypeExpr
  | 0 => unexpected .type
  | limit + 1 =>
    union <$> separated (limit + 1) .bar (alternativeType (limit + 1) (typeWithin limit))

/-! ## Signatures -/

/-- A constraint, `Var :: type` or `is_subtype(Var, type)`. -/
def constraint (type : Parser TypeExpr) : Parser Constraint := do
  if ← eat (.atom "is_subtype") then
    expectPunct .openParen
    let var ← expectVar
    expectPunct .comma
    let type ← type
    expectPunct .closeParen
    return ⟨var, type⟩
  else
    let var ← expectVar
    expectPunct .doubleColon
    return ⟨var, ← type⟩

def signature (limit : Nat) : Parser Signature := do
  let args ← typeArguments limit (typeWithin limit)
  expectPunct .arrow
  let result ← typeWithin limit
  let constraints ←
    if ← eatKeyword .when then separated limit .comma (constraint (typeWithin limit)) else pure []
  return ⟨args, result, constraints⟩

end Parser

end HeaderForms
