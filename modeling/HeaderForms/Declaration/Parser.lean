-- SUMMARY: The declaration grammar.
import HeaderForms.Expr.Parser
import HeaderForms.TypeExpr.Parser
import HeaderForms.Declaration.Head

/-!
# Declaration grammar

A declaration is an attribute, which starts with a minus sign, or a function. The attributes that
declare records, types, specifications, exports and imports have grammars of their own; any other
attribute holds one expression.
-/

namespace HeaderForms

namespace Parser

/-! ## Records and types -/

def recordFieldDecl (limit : Nat) : Parser RecordFieldDecl := do
  let name ← expectAtom
  let default ← if ← eatPunct .equals then some <$> exprWithin limit else pure none
  let type ← if ← eatPunct .doubleColon then some <$> typeWithin limit else pure none
  return ⟨name, default, type⟩

def recordDecl (limit : Nat) : Parser Declaration := do
  expectPunct .openParen
  let name ← expectAtom
  expectPunct .comma
  expectPunct .openBrace
  let fields ← delimited limit .closeBrace (recordFieldDecl limit)
  expectPunct .closeParen
  return .record name fields

def typeDecl (limit : Nat) (declare : String → List String → TypeExpr → Declaration) :
    Parser Declaration := do
  let name ← expectAtom
  expectPunct .openParen
  let params ← delimited limit .closeParen expectVar
  expectPunct .doubleColon
  return declare name params (← typeWithin limit)

/-! ## Specifications -/

def specDecl (limit : Nat) : Parser Declaration := do
  let first ← expectAtom
  let name ← if ← eatPunct .colon then expectAtom else pure first
  let signatures ← separated limit .semicolon (signature limit)
  let arity := (signatures.head?.map (·.args.length)).getD 0
  if signatures.any (·.args.length != arity) then fail (.mixedArities name)
  return .spec name arity signatures

/-! ## Exports and imports -/

def functionName : Parser FunctionName := do
  let name ← expectAtom
  expectPunct .slash
  return ⟨name, ← expectArity⟩

def functionNames (limit : Nat) : Parser (List FunctionName) := do
  expectPunct .openBracket
  delimited limit .closeBracket functionName

def exportDecl (limit : Nat) : Parser Declaration := do
  expectPunct .openParen
  let functions ← functionNames limit
  expectPunct .closeParen
  return .exports functions

def importDecl (limit : Nat) : Parser Declaration := do
  expectPunct .openParen
  let module ← expectAtom
  expectPunct .comma
  let functions ← functionNames limit
  expectPunct .closeParen
  return .imports module functions

/-! ## Attributes -/

def attributeValue (limit : Nat) : Parser Expr := do
  if ← eatPunct .openParen then
    let value ← exprWithin limit
    expectPunct .closeParen
    return value
  else exprWithin limit

def attributeBody (limit : Nat) (name : String) : Parser Declaration :=
  match name with
  | "record" => recordDecl limit
  | "type" => typeDecl limit .type
  | "opaque" => typeDecl limit .opaqueType
  | "spec" => specDecl limit
  | "export" => exportDecl limit
  | "import" => importDecl limit
  | name => .attribute name <$> attributeValue limit

/-- Whether an attribute may stand between parentheses as a whole. -/
def mayBeWrapped (name : String) : Bool :=
  name = "spec" || name = "type" || name = "opaque"

/-- Takes the parenthesis before a wrapped attribute. One that closes at once wraps nothing. -/
def openWrap : Parser Bool := do
  match ← peekTwo with
  | (some (.punct .openParen), some (.punct .closeParen)) => return false
  | (some (.punct .openParen), _) => skip 1; return true
  | _ => return false

def attributeName? : Lexeme → Option String
  | .atom name => some name
  | .keyword word => some word.text
  | _ => none

def attributeDecl (limit : Nat) : Parser Declaration := do
  let name ← takeAny .expectedAttributeName attributeName?
  let wrapped ← if mayBeWrapped name then openWrap else pure false
  let declaration ← attributeBody limit name
  if wrapped then expectPunct .closeParen
  return declaration

/-! ## Functions -/

def namedClause (limit : Nat) (function : String) : Parser Clause := do
  let name ← expectAtom
  if name ≠ function then fail (.headMismatch name function)
  funClause limit (exprWithin limit)

def functionDecl (limit : Nat) : Parser Declaration := do
  match ← peek with
  | some (.atom name) =>
    let clauses ← separated limit .semicolon (namedClause limit name)
    let arity := (clauses.head?.map (·.patterns.length)).getD 0
    if clauses.any (·.patterns.length != arity) then fail (.differingArities name)
    return .function name arity clauses
  | _ => unexpected .declaration

/-! ## Declarations -/

def declaration (limit : Nat) : Parser Declaration := do
  let declaration ←
    if ← eatPunct .minus then attributeDecl limit else functionDecl limit
  expectEnd
  return declaration

end Parser

namespace Declaration

/-- The declaration that the tokens hold up to their end marker. What the grammar refuses is
unsupported if it has a head, and an error otherwise. -/
def ofTokens (tokens : List Token) : Except SourceError Declaration :=
  match (Parser.declaration (tokens.length + 1)).parse tokens with
  | .ok declaration => .ok declaration
  | .error error =>
    match Head.ofTokens tokens with
    | some head => .ok (.unsupported head error)
    | none => .error error

end Declaration

end HeaderForms
