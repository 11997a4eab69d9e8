-- SUMMARY: The expression grammar.
import HeaderForms.Token.Parser
import HeaderForms.Expr.Basic

/-!
# Expression grammar

From weakest to strongest binding, the levels are `catch`; `=` and `!`, to the right; `orelse` and
`andalso`, to the right; comparisons, which do not chain; `++` and `--`, to the right; the additive
and the multiplicative operators, to the left; prefix operators; calls, remote calls and access to
records and maps; and primary expressions.

A parser below that reads nested expressions takes two parameters: `limit`, which bounds the tokens
that are left, and `nested`, the parser of an expression at the outermost level. Whoever calls
`nested` has taken a token since its own expression began, so expressions nest no deeper than there
are tokens, and `Parser.exprWithin` ties the knot.
-/

namespace HeaderForms

namespace Parser

/-! ## Operators -/

def matchOp? : Lexeme → Option (Expr → Expr → Expr)
  | .punct .equals => some .match_
  | .punct .bang => some (.binaryOp .send)
  | _ => none

def orelseOp? : Lexeme → Option (Expr → Expr → Expr)
  | .keyword .orelse => some (.binaryOp .orelse)
  | _ => none

def andalsoOp? : Lexeme → Option (Expr → Expr → Expr)
  | .keyword .andalso => some (.binaryOp .andalso)
  | _ => none

def comparisonOp? : Lexeme → Option BinaryOp
  | .punct .equal => some .equal
  | .punct .differ => some .differ
  | .punct .atMost => some .atMost
  | .punct .less => some .less
  | .punct .atLeast => some .atLeast
  | .punct .greater => some .greater
  | .punct .exactEqual => some .exactEqual
  | .punct .exactDiffer => some .exactDiffer
  | _ => none

def listOp? : Lexeme → Option (Expr → Expr → Expr)
  | .punct .append => some (.binaryOp .append)
  | .punct .subtract => some (.binaryOp .subtract)
  | _ => none

def additiveOp? : Lexeme → Option BinaryOp
  | .punct .plus => some .plus
  | .punct .minus => some .minus
  | .keyword .bor => some .bor
  | .keyword .bxor => some .bxor
  | .keyword .bsl => some .bsl
  | .keyword .bsr => some .bsr
  | .keyword .or_ => some .or_
  | .keyword .xor => some .xor
  | _ => none

def multiplicativeOp? : Lexeme → Option BinaryOp
  | .punct .star => some .times
  | .punct .slash => some .divide
  | .keyword .div => some .div
  | .keyword .rem => some .rem
  | .keyword .band => some .band
  | .keyword .and_ => some .and_
  | _ => none

def signOp? : Lexeme → Option UnaryOp
  | .punct .plus => some .plus
  | .punct .minus => some .minus
  | _ => none

def prefixOp? : Lexeme → Option UnaryOp
  | .keyword .not_ => some .not_
  | .keyword .bnot => some .bnot
  | lexeme => signOp? lexeme

/-- A prefix operator on its operand. A sign before a number is part of the number. -/
def signed : UnaryOp → Expr → Expr
  | .minus, .integer value => .integer (-value)
  | .minus, .float value => .float value.negate
  | .plus, .integer value => .integer value
  | .plus, .float value => .float value
  | op, operand => .unaryOp op operand

/-- A signed value in a binary, where only a minus sign is part of a number. -/
def signedElement : UnaryOp → Expr → Expr
  | .minus, .integer value => .integer (-value)
  | .minus, .float value => .float value.negate
  | op, operand => .unaryOp op operand

/-! ## Sequences and clauses -/

/-- Expressions between commas. -/
def exprs (limit : Nat) (nested : Parser Expr) : Parser (List Expr) :=
  separated limit .comma nested

def arguments (limit : Nat) (nested : Parser Expr) : Parser (List Expr) := do
  expectPunct .openParen
  delimited limit .closeParen nested

def guards (limit : Nat) (nested : Parser Expr) : Parser (List (List Expr)) :=
  separated limit .semicolon (exprs limit nested)

/-- What follows the patterns of a clause: guards behind `when`, and the body. -/
def clauseRest (limit : Nat) (nested : Parser Expr) (patterns : List Expr) : Parser Clause := do
  let guards ← if ← eatKeyword .when then guards limit nested else pure []
  expectPunct .arrow
  return .mk patterns guards (← exprs limit nested)

def caseClause (limit : Nat) (nested : Parser Expr) : Parser Clause := do
  clauseRest limit nested [← nested]

def funClause (limit : Nat) (nested : Parser Expr) : Parser Clause := do
  clauseRest limit nested (← arguments limit nested)

def ifClause (limit : Nat) (nested : Parser Expr) : Parser Clause := do
  let guards ← guards limit nested
  expectPunct .arrow
  return .mk [] guards (← exprs limit nested)

/-- Clauses between semicolons, closed by `end`. -/
def clausesToEnd (limit : Nat) (clause : Parser Clause) : Parser (List Clause) := do
  let clauses ← separated limit .semicolon clause
  expectKeyword .end_
  return clauses

/-! ## Fields -/

def mapArrow? : Lexeme → Option Bool
  | .punct .rightDoubleArrow => some false
  | .punct .colonEquals => some true
  | _ => none

def mapField (nested : Parser Expr) : Parser MapField := do
  let key ← nested
  let exact ← take .mapArrow mapArrow?
  return .mk key (← nested) exact

def fieldName? : Lexeme → Option String
  | .atom name => some name
  | .var name => some name
  | _ => none

def fieldValue (nested : Parser Expr) : Parser FieldValue := do
  let name ← takeAny .expectedFieldName fieldName?
  expectPunct .equals
  return .mk name (← nested)

/-- What follows a `#`: the fields of a map, or the name of a record and one of its fields or the
values of some. -/
def hashRest (limit : Nat) (nested : Parser Expr) (map : List MapField → Expr)
    (access : String → String → Expr) (record : String → List FieldValue → Expr) :
    Parser Expr := do
  if ← eatPunct .openBrace then
    return map (← delimited limit .closeBrace (mapField nested))
  let name ← expectAtom
  if ← eatPunct .period then
    return access name (← expectAtom)
  expectPunct .openBrace
  return record name (← delimited limit .closeBrace (fieldValue nested))

/-! ## Primary expressions -/

/-- The strings ahead, joined. -/
def strings : Parser String := fun tokens =>
  let text? : Token → Option String := fun token =>
    match token.lexeme with
    | .string text => some text
    | _ => none
  let ahead := tokens.takeWhile fun token => (text? token).isSome
  .ok (String.join (ahead.filterMap text?), tokens.drop ahead.length)

/-- What follows a `[`: a list or a comprehension. -/
def listRest (limit : Nat) (nested : Parser Expr) : Parser Expr := do
  if ← eatPunct .closeBracket then return .nil
  let head ← nested
  if ← eatPunct .doubleBar then
    return .comprehension head (← delimited limit .closeBracket qualifier)
  let others ← if ← eatPunct .comma then exprs limit nested else pure []
  let tail ← if ← eatPunct .bar then nested else pure .nil
  expectPunct .closeBracket
  return (head :: others).foldr .cons tail
where
  qualifier : Parser Qualifier := do
    let expr ← nested
    if ← eatPunct .leftArrow then return .generator expr (← nested)
    if ← eatPunct .leftDoubleArrow then return .bitGenerator expr (← nested)
    return .filter expr

/-- A type specifier of a binary element and its unit. -/
def elementSpec : Parser (String × Option Int) := do
  let name ← expectAtom
  let unit ← if ← eatPunct .colon then some <$> expectInteger else pure none
  return (name, unit)

def binElement (limit : Nat) (primary : Parser Expr) : Parser BinElement := do
  let value ←
    match ← take? signOp? with
    | some op => signedElement op <$> primary
    | none => primary
  let size ← if ← eatPunct .colon then some <$> primary else pure none
  let specs ← if ← eatPunct .slash then separated limit .minus elementSpec else pure []
  return .mk value size specs

/-- What follows a `<<`. -/
def binaryRest (limit : Nat) (primary : Parser Expr) : Parser Expr := do
  if ← eatPunct .closeBinary then return .binary []
  let elements ← separated limit .comma (binElement limit primary)
  expectPunct .closeBinary
  return .binary elements

/-- What follows a `fun`: a reference to a function, or clauses. -/
def funRest (limit : Nat) (nested : Parser Expr) : Parser Expr := do
  match ← peekTwo with
  | (some (.atom name), some (.punct .slash)) =>
    skip 2
    return .funRef none name (← expectArity)
  | (some (.atom module), some (.punct .colon)) =>
    skip 2
    let name ← expectAtom
    expectPunct .slash
    return .funRef (some module) name (← expectArity)
  | (some (.punct .openParen), _) =>
    return .fun_ (← clausesToEnd limit (funClause limit nested))
  | _ => fail .unsupportedFun

/-- A primary expression. A binary holds primary expressions, so this level has a depth bound of
its own. -/
def primaryWithin (limit : Nat) (nested : Parser Expr) : Nat → Parser Expr
  | 0 => unexpected .expression
  | depth + 1 => do
    match ← peek with
    | some (.atom name) => skip 1; return .atom name
    | some (.var name) => skip 1; return .var name
    | some (.integer value) => skip 1; return .integer value
    | some (.float value) => skip 1; return .float value
    | some (.bigInteger text) => fail (.oversizedInteger text)
    | some (.char value) => skip 1; return .char value
    | some (.string _) => return .string (← strings)
    | some (.punct .openParen) =>
      skip 1
      let inner ← nested
      expectPunct .closeParen
      return inner
    | some (.punct .openBracket) => skip 1; listRest limit nested
    | some (.punct .openBrace) =>
      skip 1
      return .tuple (← delimited limit .closeBrace nested)
    | some (.punct .openBinary) =>
      skip 1
      binaryRest limit (primaryWithin limit nested depth)
    | some (.punct .hash) =>
      skip 1
      hashRest limit nested .map .recordIndex .recordNew
    | some (.keyword .begin_) =>
      skip 1
      let body ← exprs limit nested
      expectKeyword .end_
      return .block body
    | some (.keyword .case_) =>
      skip 1
      let subject ← nested
      expectKeyword .of_
      return .case_ subject (← clausesToEnd limit (caseClause limit nested))
    | some (.keyword .if_) =>
      skip 1
      return .if_ (← clausesToEnd limit (ifClause limit nested))
    | some (.keyword .fun_) => skip 1; funRest limit nested
    | some (.keyword .receive) => fail (.unsupportedExpression .receive)
    | some (.keyword .try_) => fail (.unsupportedExpression .try_)
    | some (.keyword .cond) => fail (.unsupportedExpression .cond)
    | some (.keyword .let_) => fail (.unsupportedExpression .let_)
    | _ => unexpected .expression

def primary (limit : Nat) (nested : Parser Expr) : Parser Expr :=
  primaryWithin limit nested limit

/-! ## Levels -/

/-- Calls, remote calls and accesses that follow an expression. -/
def postfixFrom (limit : Nat) (nested : Parser Expr) : Nat → Expr → Parser Expr
  | 0, expr => return expr
  | rounds + 1, expr => do
    if ← eatPunct .colon then
      let function ← primary limit nested
      let args ← arguments limit nested
      postfixFrom limit nested rounds (.remoteCall expr function args)
    else if ← atPunct .openParen then
      let args ← arguments limit nested
      postfixFrom limit nested rounds (.call expr args)
    else if ← eatPunct .hash then
      let access ← hashRest limit nested (.mapUpdate expr) (.recordField expr)
        (.recordUpdate expr)
      postfixFrom limit nested rounds access
    else return expr

def postfixLevel (limit : Nat) (nested : Parser Expr) : Parser Expr := do
  postfixFrom limit nested limit (← primary limit nested)

def prefixFrom (operand : Parser Expr) : Nat → Parser Expr
  | 0 => operand
  | rounds + 1 => do
    match ← take? prefixOp? with
    | some op => signed op <$> prefixFrom operand rounds
    | none => operand

/-- Operands joined by operators that bind to the left. -/
def leftFrom (operator? : Lexeme → Option BinaryOp) (operand : Parser Expr) :
    Nat → Expr → Parser Expr
  | 0, left => return left
  | rounds + 1, left => do
    match ← take? operator? with
    | some op => leftFrom operator? operand rounds (.binaryOp op left (← operand))
    | none => return left

def leftLevel (limit : Nat) (operator? : Lexeme → Option BinaryOp) (operand : Parser Expr) :
    Parser Expr := do
  leftFrom operator? operand limit (← operand)

/-- Operands joined by operators that bind to the right. -/
def rightLevel (operator? : Lexeme → Option (Expr → Expr → Expr)) (operand : Parser Expr) :
    Nat → Parser Expr
  | 0 => operand
  | rounds + 1 => do
    let left ← operand
    match ← take? operator? with
    | some combine => combine left <$> rightLevel operator? operand rounds
    | none => return left

/-- One operand, or two with a comparison between them. -/
def comparisonLevel (operand : Parser Expr) : Parser Expr := do
  let left ← operand
  match ← take? comparisonOp? with
  | some op => .binaryOp op left <$> operand
  | none => return left

def prefixLevel (limit : Nat) (nested : Parser Expr) : Parser Expr :=
  prefixFrom (postfixLevel limit nested) limit

def additiveLevel (limit : Nat) (nested : Parser Expr) : Parser Expr :=
  leftLevel limit additiveOp? (leftLevel limit multiplicativeOp? (prefixLevel limit nested))

def andalsoLevel (limit : Nat) (nested : Parser Expr) : Parser Expr :=
  rightLevel andalsoOp?
    (comparisonLevel (rightLevel listOp? (additiveLevel limit nested) limit)) limit

def matchLevel (limit : Nat) (nested : Parser Expr) : Parser Expr :=
  rightLevel matchOp? (rightLevel orelseOp? (andalsoLevel limit nested) limit) limit

def exprWithin : Nat → Parser Expr
  | 0 => unexpected .expression
  | limit + 1 => do
    if ← eatKeyword .catch_ then return .catch_ (← exprWithin limit)
    matchLevel (limit + 1) (exprWithin limit)

/-- The one expression in front of an end marker. -/
def singleExpr (limit : Nat) : Parser Expr := do
  let found ← exprs limit (exprWithin limit)
  expectEnd
  match found with
  | [expr] => return expr
  | _ => fail (.expressionCount found.length)

end Parser

/-- The one expression that tokens hold in front of an end marker. -/
def Expr.ofTokens (tokens : List Token) : Except SourceError Expr :=
  (Parser.singleExpr (tokens.length + 1)).parse tokens

end HeaderForms
