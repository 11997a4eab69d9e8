-- SUMMARY: Parsers over tokens: a failure knows its cause and the tokens that were left.
import HeaderForms.SourceError

/-!
# Parsers over tokens

A parser takes the tokens that are left and either answers with a value and the tokens behind it or
fails with a cause and the tokens that were left then. The line of a failure is the line of the
first of those tokens; when none is left, it is the line of the last token there was.

Loops are bounded by a limit that is at least the number of tokens, and every round takes a token,
so the limit never cuts one short.
-/

namespace HeaderForms

structure Failure where
  fault : SourceFault
  rest : List Token
deriving DecidableEq, Repr

abbrev Parser := StateT (List Token) (Except Failure)

namespace Parser

/-! ## Running -/

/-- The line of a failure with `rest` left of `tokens`. -/
def lineAt (tokens rest : List Token) : Nat :=
  match rest.head?.or tokens.getLast? with
  | some token => token.line
  | none => 0

def parse (parser : Parser α) (tokens : List Token) : Except SourceError α :=
  match parser tokens with
  | .ok (value, _) => .ok value
  | .error failure => .error ⟨lineAt tokens failure.rest, failure.fault⟩

/-! ## Single tokens -/

def fail (fault : SourceFault) : Parser α := fun tokens =>
  .error ⟨fault, tokens⟩

def peek : Parser (Option Lexeme) := fun tokens =>
  .ok (tokens.head?.map (·.lexeme), tokens)

/-- The two lexemes ahead. -/
def peekTwo : Parser (Option Lexeme × Option Lexeme) := fun tokens =>
  .ok ((tokens.head?.map (·.lexeme), tokens.tail.head?.map (·.lexeme)), tokens)

def skip (count : Nat) : Parser Unit := fun tokens =>
  .ok ((), tokens.drop count)

def unexpected (wanted : Expected) : Parser α := fun tokens =>
  .error ⟨.expected wanted (tokens.head?.map (·.lexeme)), tokens⟩

/-- Takes the next token if `select` accepts it. -/
def take? (select : Lexeme → Option α) : Parser (Option α) := fun tokens =>
  match tokens with
  | [] => .ok (none, [])
  | token :: rest =>
    match select token.lexeme with
    | some value => .ok (some value, rest)
    | none => .ok (none, token :: rest)

def take (wanted : Expected) (select : Lexeme → Option α) : Parser α := do
  match ← take? select with
  | some value => return value
  | none => unexpected wanted

/-- Takes the next token whatever it is, and fails behind it unless `select` accepts it. -/
def takeAny (fault : SourceFault) (select : Lexeme → Option α) : Parser α := fun tokens =>
  match tokens with
  | [] => .error ⟨fault, []⟩
  | token :: rest =>
    match select token.lexeme with
    | some value => .ok (value, rest)
    | none => .error ⟨fault, rest⟩

def atPunct (mark : Punct) : Parser Bool := fun tokens =>
  .ok (tokens.head?.any (·.lexeme = .punct mark), tokens)

def eat (lexeme : Lexeme) : Parser Bool := fun tokens =>
  match tokens with
  | [] => .ok (false, [])
  | token :: rest => if token.lexeme = lexeme then .ok (true, rest) else .ok (false, token :: rest)

def eatPunct (mark : Punct) : Parser Bool :=
  eat (.punct mark)

def eatKeyword (word : Keyword) : Parser Bool :=
  eat (.keyword word)

def expectPunct (mark : Punct) : Parser Unit := do
  if !(← eatPunct mark) then unexpected (.punct mark)

def expectKeyword (word : Keyword) : Parser Unit := do
  if !(← eatKeyword word) then unexpected (.keyword word)

/-- Takes the end marker, which must be the last token. -/
def expectEnd : Parser Unit := do
  if !(← eat .dot) then unexpected .endMarker
  if (← peek).isSome then unexpected .endOfForm

/-! ## Names and numbers -/

def atomName? : Lexeme → Option String
  | .atom name => some name
  | _ => none

def varName? : Lexeme → Option String
  | .var name => some name
  | _ => none

def natural? : Lexeme → Option Nat
  | .integer value => some value
  | _ => none

def expectAtom : Parser String :=
  take .atom atomName?

def expectVar : Parser String :=
  take .variable varName?

/-- A signed integer. -/
def expectInteger : Parser Int := do
  let negative ← eatPunct .minus
  let value ← take .integer natural?
  return if negative then -value else value

def expectArity : Parser Nat := do
  let arity ← expectInteger
  if arity < 0 then fail (.badArity arity)
  return arity.toNat

/-! ## Repetition -/

/-- Items behind those in `found`, which is in reverse, as long as a separator follows. -/
def separatedFrom (separator : Punct) (item : Parser α) : Nat → List α → Parser (List α)
  | 0, found => return found.reverse
  | limit + 1, found => do
    let found := (← item) :: found
    if ← eatPunct separator then separatedFrom separator item limit found
    else return found.reverse

/-- One or more items. -/
def separated (limit : Nat) (separator : Punct) (item : Parser α) : Parser (List α) :=
  separatedFrom separator item limit []

/-- Any number of items between commas, up to and including `close`. -/
def delimited (limit : Nat) (close : Punct) (item : Parser α) : Parser (List α) := do
  if ← eatPunct close then return []
  let items ← separated limit .comma item
  expectPunct close
  return items

end Parser

end HeaderForms
