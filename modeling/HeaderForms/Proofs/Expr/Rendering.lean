-- SUMMARY: The lexemes that stand for an expression, with no more parentheses than it needs.
import HeaderForms.Proofs.Expr.Shape

/-!
# Rendering of expressions

Every expression has a level, and so has every position in which an expression stands. A greater
level binds more strongly:

* 0: `catch`
* 1: `=` and `!`, to the right
* 2: `orelse`, to the right
* 3: `andalso`, to the right
* 4: comparisons, which do not chain
* 5: `++` and `--`, to the right
* 6: `+`, `-`, `bor`, `bxor`, `bsl`, `bsr`, `or` and `xor`, to the left
* 7: `*`, `/`, `div`, `rem`, `band` and `and`, to the left
* 8: prefix operators, and so numbers with a minus sign
* 9: calls, remote calls, and access to records and maps
* 10: primary expressions

An expression is in parentheses exactly where its level is less than that of its position. What
stands in brackets or between separators is at level 0. The function of a remote call is a primary
expression, and so is the size of a binary element. The value of an element is a primary expression
too, but one sign may stand in front of it.
-/

namespace HeaderForms

/-! ## Levels -/

def BinaryOp.level : BinaryOp → Nat
  | .send => 1
  | .orelse => 2
  | .andalso => 3
  | .equal | .differ | .atMost | .less | .atLeast | .greater | .exactEqual | .exactDiffer => 4
  | .append | .subtract => 5
  | .plus | .minus | .bor | .bxor | .bsl | .bsr | .or_ | .xor => 6
  | .times | .divide | .div | .rem | .band | .and_ => 7

/-- The position on the left of an operator: the operators of the last levels group to the left. -/
def leftPosition (level : Nat) : Nat :=
  if level ≤ 5 then level + 1 else level

theorem le_leftPosition (level : Nat) : level ≤ leftPosition level := by
  unfold leftPosition
  split <;> omega

/-- The position on the right of an operator: comparisons group neither way. -/
def rightPosition (level : Nat) : Nat :=
  if level ≤ 3 ∨ level = 5 then level else level + 1

def Expr.level : Expr → Nat
  | .catch_ _ => 0
  | .match_ _ _ => 1
  | .binaryOp op _ _ => op.level
  | .unaryOp _ _ => 8
  | .integer value => if value < 0 then 8 else 10
  | .float value => if value.isNegative then 8 else 10
  | .call _ _ | .remoteCall _ _ _ | .mapUpdate _ _ | .recordUpdate _ _ _ | .recordField _ _ _ => 9
  | _ => 10

/-! ## Lexemes -/

def BinaryOp.lexeme : BinaryOp → Lexeme
  | .send => .punct .bang
  | .orelse => .keyword .orelse
  | .andalso => .keyword .andalso
  | .equal => .punct .equal
  | .differ => .punct .differ
  | .atMost => .punct .atMost
  | .less => .punct .less
  | .atLeast => .punct .atLeast
  | .greater => .punct .greater
  | .exactEqual => .punct .exactEqual
  | .exactDiffer => .punct .exactDiffer
  | .append => .punct .append
  | .subtract => .punct .subtract
  | .plus => .punct .plus
  | .minus => .punct .minus
  | .bor => .keyword .bor
  | .bxor => .keyword .bxor
  | .bsl => .keyword .bsl
  | .bsr => .keyword .bsr
  | .or_ => .keyword .or_
  | .xor => .keyword .xor
  | .times => .punct .star
  | .divide => .punct .slash
  | .div => .keyword .div
  | .rem => .keyword .rem
  | .band => .keyword .band
  | .and_ => .keyword .and_

def UnaryOp.lexeme : UnaryOp → Lexeme
  | .plus => .punct .plus
  | .minus => .punct .minus
  | .not_ => .keyword .not_
  | .bnot => .keyword .bnot

namespace Render

def ofInt (value : Int) : List Lexeme :=
  if value < 0 then [.punct .minus, .integer value.natAbs] else [.integer value.natAbs]

def ofFloat (value : Float64) : List Lexeme :=
  if value.isNegative then [.punct .minus, .float value.negate] else [.float value]

def commas (items : List (List Lexeme)) : List Lexeme :=
  [.punct .comma].intercalate items

def semicolons (items : List (List Lexeme)) : List Lexeme :=
  [.punct .semicolon].intercalate items

/-- What stands for an expression of a level at a position. -/
def grouped (position level : Nat) (lexemes : List Lexeme) : List Lexeme :=
  if level < position then .punct .openParen :: (lexemes ++ [.punct .closeParen]) else lexemes

def ofSpec : String × Option Int → List Lexeme
  | (name, none) => [.atom name]
  | (name, some unit) => .atom name :: .punct .colon :: ofInt unit

def ofSpecs : List (String × Option Int) → List Lexeme
  | [] => []
  | spec :: specs => .punct .slash :: [.punct .minus].intercalate ((spec :: specs).map ofSpec)

/-- The guards of a clause that may have none. -/
def guarded : List (List Lexeme) → List Lexeme
  | [] => []
  | guard :: guards => .keyword .when :: semicolons (guard :: guards)

/-! Clauses differ in what stands in front of the arrow, given the patterns and the guards. -/

def caseHead (patterns guards : List (List Lexeme)) : List Lexeme :=
  commas patterns ++ guarded guards

def funHead (patterns guards : List (List Lexeme)) : List Lexeme :=
  .punct .openParen :: (commas patterns ++ .punct .closeParen :: guarded guards)

def ifHead (_patterns guards : List (List Lexeme)) : List Lexeme :=
  semicolons guards

end Render

/-! ## Expressions -/

namespace Expr

open Render

mutual

/-- The lexemes that stand for the expression on its own. -/
def render : Expr → List Lexeme
  | .atom name => [.atom name]
  | .var name => [.var name]
  | .integer value => ofInt value
  | .float value => ofFloat value
  | .char value => [.char value]
  | .string text => [.string text]
  | .nil => [.punct .openBracket, .punct .closeBracket]
  | .cons head tail => .punct .openBracket :: (render head ++ closing tail (render tail))
  | .tuple items => .punct .openBrace :: (commas (renders items) ++ [.punct .closeBrace])
  | .binary elements =>
    .punct .openBinary :: (commas (elementRenders elements) ++ [.punct .closeBinary])
  | .map fields =>
    .punct .hash :: .punct .openBrace :: (commas (mapRenders fields) ++ [.punct .closeBrace])
  | .mapUpdate base fields =>
    grouped 9 base.level (render base) ++
      .punct .hash :: .punct .openBrace :: (commas (mapRenders fields) ++ [.punct .closeBrace])
  | .recordNew name fields =>
    .punct .hash :: .atom name :: .punct .openBrace ::
      (commas (fieldRenders fields) ++ [.punct .closeBrace])
  | .recordUpdate record name fields =>
    grouped 9 record.level (render record) ++
      .punct .hash :: .atom name :: .punct .openBrace ::
        (commas (fieldRenders fields) ++ [.punct .closeBrace])
  | .recordField record name field =>
    grouped 9 record.level (render record) ++
      [.punct .hash, .atom name, .punct .period, .atom field]
  | .recordIndex name field => [.punct .hash, .atom name, .punct .period, .atom field]
  | .binaryOp op left right =>
    grouped (leftPosition op.level) left.level (render left) ++
      op.lexeme :: grouped (rightPosition op.level) right.level (render right)
  | .unaryOp op operand => op.lexeme :: grouped 8 operand.level (render operand)
  | .match_ pattern value =>
    grouped 2 pattern.level (render pattern) ++
      .punct .equals :: grouped 1 value.level (render value)
  | .call function args =>
    grouped 9 function.level (render function) ++
      .punct .openParen :: (commas (renders args) ++ [.punct .closeParen])
  | .remoteCall module function args =>
    grouped 9 module.level (render module) ++
      .punct .colon :: (grouped 10 function.level (render function) ++
        .punct .openParen :: (commas (renders args) ++ [.punct .closeParen]))
  | .block body => .keyword .begin_ :: (commas (renders body) ++ [.keyword .end_])
  | .case_ subject clauses =>
    .keyword .case_ :: (render subject ++
      .keyword .of_ :: (semicolons (clauseRenders caseHead clauses) ++ [.keyword .end_]))
  | .if_ clauses =>
    .keyword .if_ :: (semicolons (clauseRenders ifHead clauses) ++ [.keyword .end_])
  | .fun_ clauses =>
    .keyword .fun_ :: (semicolons (clauseRenders funHead clauses) ++ [.keyword .end_])
  | .funRef none name arity =>
    [.keyword .fun_, .atom name, .punct .slash, .integer arity]
  | .funRef (some module) name arity =>
    [.keyword .fun_, .atom module, .punct .colon, .atom name, .punct .slash, .integer arity]
  | .catch_ body => .keyword .catch_ :: render body
  | .comprehension body qualifiers =>
    .punct .openBracket :: (render body ++
      .punct .doubleBar :: (commas (qualifierRenders qualifiers) ++ [.punct .closeBracket]))

/-- What is left of a list behind an item, of which the tail on its own is given. -/
def closing : Expr → List Lexeme → List Lexeme
  | .nil, _ => [.punct .closeBracket]
  | .cons _ _, lexemes => .punct .comma :: lexemes.tail
  | _, lexemes => .punct .bar :: (lexemes ++ [.punct .closeBracket])

/-- The value of a binary element, which is given on its own. -/
def elementValue : Expr → List Lexeme → List Lexeme
  | .unaryOp .plus operand, _ => .punct .plus :: grouped 10 operand.level (render operand)
  | .unaryOp .minus operand, _ => .punct .minus :: grouped 10 operand.level (render operand)
  | .integer _, lexemes => lexemes
  | .float _, lexemes => lexemes
  | value, lexemes => grouped 10 value.level lexemes

def renders : List Expr → List (List Lexeme)
  | [] => []
  | expr :: exprs => render expr :: renders exprs

def elementRenders : List BinElement → List (List Lexeme)
  | [] => []
  | .mk value none specs :: elements =>
    (elementValue value (render value) ++ ofSpecs specs) :: elementRenders elements
  | .mk value (some size) specs :: elements =>
    (elementValue value (render value) ++
      .punct .colon :: (grouped 10 size.level (render size) ++ ofSpecs specs)) ::
        elementRenders elements

def mapRenders : List MapField → List (List Lexeme)
  | [] => []
  | .mk key value exact :: fields =>
    (render key ++ .punct (if exact then .colonEquals else .rightDoubleArrow) :: render value) ::
      mapRenders fields

def fieldRenders : List FieldValue → List (List Lexeme)
  | [] => []
  | .mk name value :: fields =>
    (.atom name :: .punct .equals :: render value) :: fieldRenders fields

def qualifierRenders : List Qualifier → List (List Lexeme)
  | [] => []
  | .generator pattern source :: qualifiers =>
    (render pattern ++ .punct .leftArrow :: render source) :: qualifierRenders qualifiers
  | .bitGenerator pattern source :: qualifiers =>
    (render pattern ++ .punct .leftDoubleArrow :: render source) :: qualifierRenders qualifiers
  | .filter test :: qualifiers => render test :: qualifierRenders qualifiers

def guardRenders : List (List Expr) → List (List Lexeme)
  | [] => []
  | guard :: guards => commas (renders guard) :: guardRenders guards

def clauseRenders (head : List (List Lexeme) → List (List Lexeme) → List Lexeme) :
    List Clause → List (List Lexeme)
  | [] => []
  | .mk patterns guards body :: clauses =>
    (head (renders patterns) (guardRenders guards) ++ .punct .arrow :: commas (renders body)) ::
      clauseRenders head clauses

end

/-- The lexemes that stand for the expression at a position. -/
def renderAt (position : Nat) (expr : Expr) : List Lexeme :=
  grouped position expr.level (render expr)

/-- Expressions between commas. -/
def sequence (exprs : List Expr) : List Lexeme :=
  commas (exprs.map render)

end Expr

/-! ## Lists of parts -/

open HeaderForms.Render HeaderForms.Expr

def MapField.render : MapField → List Lexeme
  | .mk key value exact =>
    key.render ++ .punct (if exact then .colonEquals else .rightDoubleArrow) :: value.render

def FieldValue.render : FieldValue → List Lexeme
  | .mk name value => .atom name :: .punct .equals :: value.render

def Qualifier.render : Qualifier → List Lexeme
  | .generator pattern source => pattern.render ++ .punct .leftArrow :: source.render
  | .bitGenerator pattern source => pattern.render ++ .punct .leftDoubleArrow :: source.render
  | .filter test => test.render

def sizeRender : Option Expr → List Lexeme
  | none => []
  | some size => .punct .colon :: size.renderAt 10

def BinElement.render : BinElement → List Lexeme
  | .mk value size specs => elementValue value value.render ++ (sizeRender size ++ ofSpecs specs)

def Clause.render (head : List (List Lexeme) → List (List Lexeme) → List Lexeme) :
    Clause → List Lexeme
  | .mk patterns guards body =>
    head (patterns.map Expr.render) (guards.map sequence) ++ .punct .arrow :: sequence body

namespace Expr

@[simp] theorem renders_eq_map (exprs : List Expr) : renders exprs = exprs.map render := by
  induction exprs with
  | nil => rfl
  | cons expr exprs ih => rw [renders, ih, List.map_cons]

@[simp] theorem elementRenders_eq_map (elements : List BinElement) :
    elementRenders elements = elements.map BinElement.render := by
  induction elements with
  | nil => rfl
  | cons element elements ih =>
    obtain ⟨value, _ | size, specs⟩ := element
    · rw [elementRenders, ih, List.map_cons, BinElement.render, sizeRender, List.nil_append]
    · rw [elementRenders, ih, List.map_cons, BinElement.render, sizeRender, List.cons_append,
        renderAt]

@[simp] theorem mapRenders_eq_map (fields : List MapField) :
    mapRenders fields = fields.map MapField.render := by
  induction fields with
  | nil => rfl
  | cons field fields ih =>
    cases field
    rw [mapRenders, ih, List.map_cons, MapField.render]

@[simp] theorem fieldRenders_eq_map (fields : List FieldValue) :
    fieldRenders fields = fields.map FieldValue.render := by
  induction fields with
  | nil => rfl
  | cons field fields ih =>
    cases field
    rw [fieldRenders, ih, List.map_cons, FieldValue.render]

@[simp] theorem qualifierRenders_eq_map (qualifiers : List Qualifier) :
    qualifierRenders qualifiers = qualifiers.map Qualifier.render := by
  induction qualifiers with
  | nil => rfl
  | cons qualifier qualifiers ih =>
    cases qualifier <;> rw [qualifierRenders, ih, List.map_cons, Qualifier.render]

@[simp] theorem guardRenders_eq_map (guards : List (List Expr)) :
    guardRenders guards = guards.map sequence := by
  induction guards with
  | nil => rfl
  | cons guard guards ih => rw [guardRenders, ih, List.map_cons, renders_eq_map, sequence]

@[simp] theorem clauseRenders_eq_map
    (head : List (List Lexeme) → List (List Lexeme) → List Lexeme) (clauses : List Clause) :
    clauseRenders head clauses = clauses.map (Clause.render head) := by
  induction clauses with
  | nil => rfl
  | cons clause clauses ih =>
    cases clause
    rw [clauseRenders, ih, List.map_cons, Clause.render, renders_eq_map, renders_eq_map,
      guardRenders_eq_map, sequence]

theorem renderAt_of_le {position : Nat} {expr : Expr} (h : position ≤ expr.level) :
    expr.renderAt position = expr.render :=
  if_neg (Nat.not_lt.2 h)

theorem renderAt_of_lt {position : Nat} {expr : Expr} (h : expr.level < position) :
    expr.renderAt position = .punct .openParen :: (expr.render ++ [.punct .closeParen]) :=
  if_pos h

theorem level_natural (value : Nat) : (integer value).level = 10 := by
  rw [level, if_neg (Int.not_lt.2 (Int.natCast_nonneg value))]

theorem renderAt_natural {position : Nat} (h : position ≤ 10) (value : Nat) :
    (integer value).renderAt position = [.integer value] := by
  rw [renderAt_of_le (Nat.le_trans h (Nat.le_of_eq (level_natural value).symm)), render, ofInt,
    if_neg (Int.not_lt.2 (Int.natCast_nonneg value)), Int.natAbs_natCast]

theorem render_negative {value : Int} (h : value < 0) :
    (integer value).render = [.punct .minus, .integer value.natAbs] :=
  if_pos h

theorem renderAt_positive {position : Nat} (h : position ≤ 10) {value : Float64}
    (hsign : value.isNegative = false) : (float value).renderAt position = [.float value] := by
  have hlevel : (float value).level = 10 := by rw [level, hsign]; rfl
  rw [renderAt_of_le (Nat.le_trans h (Nat.le_of_eq hlevel.symm)), render, ofFloat, hsign]
  rfl

theorem render_negative_float {value : Float64} (hsign : value.isNegative = true) :
    (float value).render = [.punct .minus, .float value.negate] :=
  if_pos hsign

theorem renderAt_zero (expr : Expr) : expr.renderAt 0 = expr.render :=
  renderAt_of_le (Nat.zero_le _)

end Expr

/-! ## First lexemes -/

/-- The greatest level that an expression can have when it begins with the lexeme, if it can begin
with it. -/
def Lexeme.opens? : Lexeme → Option Nat
  | .keyword .catch_ => some 0
  | .punct .plus | .punct .minus | .keyword .not_ | .keyword .bnot => some 8
  | .atom _ | .var _ | .integer _ | .float _ | .char _ | .string _ => some 10
  | .punct .openParen | .punct .openBracket | .punct .openBrace | .punct .openBinary
  | .punct .hash => some 10
  | .keyword .begin_ | .keyword .case_ | .keyword .if_ | .keyword .fun_ => some 10
  | _ => none

/-- The lexemes begin as an expression of at least the level does. -/
def Opens (level : Nat) (lexemes : List Lexeme) : Prop :=
  ∃ lexeme behind reach, lexemes = lexeme :: behind ∧ lexeme.opens? = some reach ∧ level ≤ reach

theorem Opens.mono {level level' : Nat} {lexemes : List Lexeme} (h : Opens level lexemes)
    (hle : level' ≤ level) : Opens level' lexemes := by
  obtain ⟨lexeme, behind, reach, hlexemes, hopens, hreach⟩ := h
  exact ⟨lexeme, behind, reach, hlexemes, hopens, Nat.le_trans hle hreach⟩

theorem Opens.append {level : Nat} {lexemes : List Lexeme} (h : Opens level lexemes)
    (more : List Lexeme) : Opens level (lexemes ++ more) := by
  obtain ⟨lexeme, behind, reach, rfl, hopens, hreach⟩ := h
  exact ⟨lexeme, behind ++ more, reach, rfl, hopens, hreach⟩

theorem Opens.length_pos {level : Nat} {lexemes : List Lexeme} (h : Opens level lexemes) :
    0 < lexemes.length := by
  obtain ⟨lexeme, behind, _, rfl, _⟩ := h
  exact Nat.succ_pos behind.length

theorem Opens.head?_ne {level : Nat} {lexemes : List Lexeme} (h : Opens level lexemes)
    {lexeme : Lexeme} (hlexeme : lexeme.opens? = none) (more : List Lexeme) (ahead : Option Lexeme) :
    (lexemes ++ more).head?.or ahead ≠ some lexeme := by
  obtain ⟨first, behind, reach, rfl, hfirst, -⟩ := h
  rintro ⟨⟩
  rw [hlexeme] at hfirst
  cases hfirst

theorem opens_cons {level reach : Nat} {lexeme : Lexeme} {behind : List Lexeme}
    (hopens : lexeme.opens? = some reach) (hreach : level ≤ reach) :
    Opens level (lexeme :: behind) :=
  ⟨lexeme, behind, reach, rfl, hopens, hreach⟩

theorem Expr.opens_renderAt {position : Nat} {expr : Expr} (h : Opens expr.level expr.render)
    (hposition : position ≤ 10) : Opens position (expr.renderAt position) := by
  obtain hlt | hle := Nat.lt_or_ge expr.level position
  · rw [renderAt_of_lt hlt]
    exact opens_cons rfl hposition
  · rw [renderAt_of_le hle]
    exact h.mono hle

/-! ## Lengths -/

section Lengths

variable {α : Type} (separator : Lexeme) (spell : α → List Lexeme) {items : List α}

theorem length_le_intercalate {item : α} (h : item ∈ items) :
    (spell item).length ≤ ([separator].intercalate (items.map spell)).length := by
  induction items with
  | nil => cases h
  | cons first items ih =>
    cases items with
    | nil =>
      refine Nat.le_of_eq ?_
      rw [List.mem_singleton.1 h, List.map_singleton, List.intercalate_singleton]
    | cons second items =>
      rw [List.map_cons, List.map_cons, List.intercalate_cons_cons, ← List.map_cons,
        List.length_append, List.length_append]
      obtain rfl | hmem := List.mem_cons.1 h
      · omega
      · have hitem := ih hmem
        omega

theorem length_le_length_intercalate (h : ∀ item ∈ items, 0 < (spell item).length) :
    items.length ≤ ([separator].intercalate (items.map spell)).length := by
  induction items with
  | nil => exact Nat.zero_le _
  | cons first items ih =>
    obtain ⟨hfirst, hitems⟩ := List.forall_mem_cons.1 h
    cases items with
    | nil =>
      rw [List.map_singleton, List.intercalate_singleton]
      exact hfirst
    | cons second items =>
      have hlength := ih hitems
      rw [List.map_cons, List.map_cons, List.intercalate_cons_cons, ← List.map_cons,
        List.length_append, List.length_append, List.length_cons, List.length_singleton]
      omega

end Lengths

end HeaderForms
