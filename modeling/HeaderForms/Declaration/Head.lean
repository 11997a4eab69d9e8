-- SUMMARY: The kind, name and arity of a declaration, read off its first tokens.
import HeaderForms.Declaration.Basic

/-!
# Heads of declarations

The head of a declaration is read without its body, so a declaration whose body is beyond the
grammar can still be named. Export and import lists have no body worth skipping, so they have no
head.
-/

namespace HeaderForms.Head

/-- The arguments from here to the closing parenthesis at this depth, `commas` of them being
complete. -/
def argumentsFrom (first : Bool) (depth commas : Nat) : List Token → Option Nat
  | [] => none
  | token :: rest =>
    match token.lexeme with
    | .punct .openParen => argumentsFrom false (depth + 1) commas rest
    | .punct .openBracket => argumentsFrom false (depth + 1) commas rest
    | .punct .openBrace => argumentsFrom false (depth + 1) commas rest
    | .punct .openBinary => argumentsFrom false (depth + 1) commas rest
    | .punct .closeParen =>
      if depth = 0 then some (if first then 0 else commas + 1)
      else argumentsFrom false (depth - 1) commas rest
    | .punct .closeBracket => argumentsFrom false (depth - 1) commas rest
    | .punct .closeBrace => argumentsFrom false (depth - 1) commas rest
    | .punct .closeBinary => argumentsFrom false (depth - 1) commas rest
    | .punct .comma => argumentsFrom false depth (if depth = 0 then commas + 1 else commas) rest
    | .dot => none
    | _ => argumentsFrom false depth commas rest

/-- How many arguments the parenthesised list at the front of the tokens has. -/
def arguments? : List Token → Option Nat
  | token :: rest => if token.isPunct .openParen then argumentsFrom true 0 0 rest else none
  | [] => none

def atomName? (token : Token) : Option String :=
  match token.lexeme with
  | .atom name => some name
  | _ => none

/-- The name of an attribute, which may be a keyword. -/
def attributeName? (token : Token) : Option String :=
  match token.lexeme with
  | .atom name => some name
  | .keyword word => some word.text
  | _ => none

def named (kind : DeclarationKind) (tokens : List Token) : Option Head := do
  let name ← tokens.head?.bind atomName?
  return ⟨kind, name, 0⟩

/-- A name and the arguments behind it. -/
def applied (kind : DeclarationKind) (tokens : List Token) : Option Head := do
  let name ← tokens.head?.bind atomName?
  let arity ← arguments? tokens.tail
  return ⟨kind, name, arity⟩

/-- The head of a specification, whose name may follow a module name. -/
def ofSpec (tokens : List Token) : Option Head :=
  match tokens with
  | _ :: colon :: rest => applied .spec (if colon.isPunct .colon then rest else tokens)
  | _ => applied .spec tokens

def ofTokens : List Token → Option Head
  | [] => none
  | first :: rest =>
    if first.isPunct .minus then do
      let name ← rest.head?.bind attributeName?
      let body := rest.tail
      let body := if body.head?.any (·.isPunct .openParen) then body.tail else body
      match name with
      | "export" => none
      | "import" => none
      | "record" => named .record body
      | "type" => named .type body
      | "opaque" => named .opaqueType body
      | "spec" => ofSpec body
      | name => some ⟨.attribute, name, 0⟩
    else applied .function (first :: rest)

end HeaderForms.Head
