-- SUMMARY: The directives that define and undefine macros.
import HeaderForms.SourceError
import HeaderForms.Macro.Table

/-!
# Macro directives

A definition is `-define(NAME, body).` or `-define(NAME(P1, ..., Pn), body).`, where the body is any
run of tokens, kept as it stands, and may be left out with its comma. A removal is `-undef(NAME).`
Both are read from the tokens of a declaration, end marker included.
-/

namespace HeaderForms

/-- A definition of one arity of a macro. -/
structure MacroDefine where
  name : String
  arity : MacroArity
  definition : MacroDefinition
deriving DecidableEq, Repr

namespace Directive

/-- The tokens between the parentheses of a directive. -/
def body? : List Token → Option (List Token)
  | _ :: _ :: first :: rest =>
    match rest.reverse with
    | last :: close :: body =>
      if first.isPunct .openParen && close.isPunct .closeParen && last.isDot then
        some body.reverse
      else none
    | _ => none
  | _ => none

def line : List Token → Nat
  | token :: _ => token.line
  | [] => 0

def body (tokens : List Token) : Except SourceError (List Token) :=
  match body? tokens with
  | some body => .ok body
  | none => .error ⟨line tokens, .malformedDirective⟩

def varName? (token : Token) : Option String :=
  match token.lexeme with
  | .var name => some name
  | _ => none

/-- One parameter or more, up to and including the closing parenthesis, and the tokens behind
it. -/
def parametersFrom? : List Token → Option (List String × List Token)
  | param :: separator :: rest =>
    match varName? param with
    | some name =>
      if separator.isPunct .closeParen then some ([name], rest)
      else if separator.isPunct .comma then
        (parametersFrom? rest).map fun (names, rest) => (name :: names, rest)
      else none
    | none => none
  | _ => none

/-- The parameters behind an opening parenthesis. -/
def parameters? : List Token → Option (List String × List Token)
  | [] => none
  | token :: rest =>
    if token.isPunct .closeParen then some ([], rest) else parametersFrom? (token :: rest)

/-- What follows the parameters: nothing, or a comma and the body. -/
def definitionBody? : List Token → Option (List Token)
  | [] => some []
  | token :: rest => if token.isPunct .comma then some rest else none

/-- The parameters of a definition, if it has a list of them, and the tokens behind the list. -/
def head? (tokens : List Token) : Option (Option (List String) × List Token) :=
  match tokens with
  | token :: rest =>
    if token.isPunct .openParen then
      (parameters? rest).map fun (names, rest) => (some names, rest)
    else some (none, tokens)
  | [] => some (none, [])

def readDefine (tokens : List Token) : Except SourceError MacroDefine := do
  let fail (fault : SourceFault) : Except SourceError MacroDefine := .error ⟨line tokens, fault⟩
  let inner ← body tokens
  let some name := inner.head?.bind Token.name? | fail .badDefineName
  let some (params, rest) := head? inner.tail | fail (.badParameters name)
  let some body := definitionBody? rest | fail (.badDefine name)
  match params with
  | some params => return ⟨name, .fixed params.length, .defined params body⟩
  | none => return ⟨name, .noArgs, .defined [] body⟩

def readUndef (tokens : List Token) : Except SourceError String := do
  match ← body tokens with
  | [token] =>
    match token.name? with
    | some name => return name
    | none => .error ⟨token.line, .badUndefName⟩
  | _ => .error ⟨line tokens, .badUndef⟩

end Directive

end HeaderForms
