-- SUMMARY: The expansion of macro uses in the tokens of a declaration.
import HeaderForms.SourceError
import HeaderForms.Macro.Table

/-!
# Expansion of macro uses

A use is `?NAME` or `?NAME(arguments)`. Where the macro is defined for that number of arguments, the
use stands for that definition with the tokens of the arguments in place of the parameters;
otherwise `?NAME` alone stands for the definition without an argument list, and what was written as
arguments stays behind it. A definition is expanded in turn.

Expansion is bounded twice: definitions nest at most 32 deep, and one declaration grows to at most
100000 tokens, a budget that all uses in it draw on.
-/

namespace HeaderForms

/-! ## Predefined macros -/

/-- The header that is read, as predefined macros name it. -/
structure FileContext where
  file : String
  module : String
deriving DecidableEq, Repr

namespace FileContext

/-- A file name without its extension. A point at the front starts no extension. -/
def stem (name : List Char) : List Char :=
  let before := ((name.reverse.dropWhile (· ≠ '.')).drop 1).reverse
  if before.isEmpty then name else before

/-- The components of a path, less those that stay in place. -/
def components (path : List Char) : List (List Char) :=
  (path.splitOn '/').filter fun part => !part.isEmpty && part ≠ ['.']

def moduleName (path : List Char) : List Char :=
  match (components path).getLast? with
  | some name => if name = ['.', '.'] then [] else stem name
  | none => []

def ofFile (file : String) : FileContext :=
  ⟨file, String.ofList (moduleName file.toList)⟩

def predefined? (context : FileContext) (name : String) (line : Nat) : Option Lexeme :=
  match name with
  | "MODULE" => some (.atom context.module)
  | "MODULE_STRING" => some (.string context.module)
  | "LINE" => some (.integer line)
  | "FILE" => some (.string context.file)
  | "MACHINE" => some (.atom "BEAM")
  | _ => none

end FileContext

namespace Expansion

/-! ## Arguments -/

/-- Whether a lexeme, with the token behind it, opens a construct that may hold commas. -/
def opens (lexeme : Lexeme) (next : Option Token) : Bool :=
  match lexeme with
  | .punct .openParen | .punct .openBracket | .punct .openBrace | .punct .openBinary => true
  | .keyword .begin_ | .keyword .case_ | .keyword .if_ | .keyword .receive
  | .keyword .try_ => true
  | .keyword .fun_ => next.any (·.isPunct .openParen)
  | _ => false

def closes : Lexeme → Bool
  | .punct .closeParen | .punct .closeBracket | .punct .closeBrace | .punct .closeBinary => true
  | .keyword .end_ => true
  | _ => false

/-- The arguments up to the closing parenthesis at this depth and the tokens behind it. `current`
is the argument that is being read and `done` are those before it, both in reverse. -/
def argumentsFrom (depth : Nat) (current : List Token) (done : List (List Token)) :
    List Token → Option (List (List Token) × List Token)
  | [] => none
  | token :: rest =>
    if token.isDot then none
    else if opens token.lexeme rest.head? then
      argumentsFrom (depth + 1) (token :: current) done rest
    else if token.isPunct .closeParen && depth = 0 then
      if current.isEmpty && done.isEmpty then some ([], rest)
      else some ((current.reverse :: done).reverse, rest)
    else if closes token.lexeme then
      argumentsFrom (depth - 1) (token :: current) done rest
    else if token.isPunct .comma && depth = 0 then
      argumentsFrom depth [] (current.reverse :: done) rest
    else argumentsFrom depth (token :: current) done rest

/-! ## Parameters -/

/-- The argument of the first parameter with the name of a variable token. -/
def argument? (bindings : List (String × List Token)) (token : Token) : Option (List Token) :=
  match token.lexeme with
  | .var name => bindings.lookup name
  | _ => none

/-- The argument of a parameter behind two question marks. -/
def quotedArgument? (bindings : List (String × List Token)) (first second param : Token) :
    Option (List Token) :=
  if first.isPunct .question && second.isPunct .question then argument? bindings param else none

/-- A body with the arguments in place of the parameters. Behind two question marks a parameter
stands for the text of its argument. -/
def bind (bindings : List (String × List Token)) (line : Nat) : List Token → List Token
  | first :: second :: param :: rest =>
    match quotedArgument? bindings first second param with
    | some argument => ⟨.string (Token.textOf argument), line⟩ :: bind bindings line rest
    | none =>
      (argument? bindings first).getD [first] ++ bind bindings line (second :: param :: rest)
  | first :: rest => (argument? bindings first).getD [first] ++ bind bindings line rest
  | [] => []

/-! ## Uses -/

def maxDepth : Nat := 32

def maxTokens : Nat := 100000

/-- Expands tokens within a budget and answers with the budget that is left. -/
abbrev Expander := Nat → List Token → Except SourceError (List Token × Nat)

/-- The arguments of a use, when the macro is defined for that many, and the tokens behind the use.
The text behind the name must be a complete argument list if it starts like one. -/
def useArguments (table : MacroTable) (name : String) (tokens : List Token) :
    Except SourceError (Option (List (List Token)) × List Token) :=
  match tokens with
  | [] => .ok (none, [])
  | token :: rest =>
    if token.isPunct .openParen then
      match argumentsFrom 0 [] [] rest with
      | some (arguments, behind) =>
        if (table.get? name (.fixed arguments.length)).isSome then .ok (some arguments, behind)
        else .ok (none, tokens)
      | none => .error ⟨token.line, .unterminatedArguments⟩
    else .ok (none, tokens)

/-- The expansion of a use of `name` on `line`. -/
def use (table : MacroTable) (context : FileContext) (inner : Expander) (budget : Nat)
    (name : String) (line : Nat) (arguments : Option (List (List Token))) :
    Except SourceError (List Token × Nat) :=
  let undefined : Except SourceError (List Token × Nat) := .error ⟨line, .undefinedMacro name⟩
  match arguments with
  | some arguments =>
    match table.get? name (.fixed arguments.length) with
    | some (.defined params body) => inner budget (bind (params.zip arguments) line body)
    | _ => undefined
  | none =>
    match table.get? name .noArgs with
    | some (.defined _ body) => inner budget body
    | some .predefined =>
      match context.predefined? name line, budget with
      | some _, 0 => .error ⟨line, .tooLarge⟩
      | some lexeme, budget + 1 => .ok ([⟨lexeme, line⟩], budget)
      | none, _ => undefined
    | _ => undefined

/-- Expands the uses in tokens, `inner` expanding the definitions they stand for. `done` holds the
tokens before these, in reverse. Every round takes a token, so their number bounds the rounds. -/
def expandFrom (table : MacroTable) (context : FileContext) (inner : Expander) :
    Nat → Nat → List Token → List Token → Except SourceError (List Token × Nat)
  | _, budget, done, [] => .ok (done.reverse, budget)
  | 0, budget, done, _ => .ok (done.reverse, budget)
  | rounds + 1, budget, done, token :: rest =>
    if token.isPunct .question then
      match rest with
      | [] => .error ⟨token.line, .missingMacroName⟩
      | next :: behind =>
        match next.name? with
        | none => .error ⟨token.line, .missingMacroName⟩
        | some name => do
          let (arguments, behind) ← useArguments table name behind
          let (expanded, budget) ← use table context inner budget name token.line arguments
          expandFrom table context inner rounds budget (expanded.reverseAux done) behind
    else
      match budget with
      | 0 => .error ⟨token.line, .tooLarge⟩
      | budget + 1 => expandFrom table context inner rounds budget (token :: done) rest

/-- Expands tokens whose definitions may nest `levels` deep. -/
def expandWithin (table : MacroTable) (context : FileContext) : Nat → Expander
  | 0, _, tokens => .error ⟨(tokens.head?.map (·.line)).getD 0, .tooDeep⟩
  | levels + 1, budget, tokens =>
    expandFrom table context (expandWithin table context levels) tokens.length budget [] tokens

/-- The tokens of a declaration with every macro use expanded. -/
def expand (table : MacroTable) (context : FileContext) (tokens : List Token) :
    Except SourceError (List Token) := do
  let (expanded, _) ← expandWithin table context (maxDepth + 1) maxTokens tokens
  return expanded

end Expansion

end HeaderForms
