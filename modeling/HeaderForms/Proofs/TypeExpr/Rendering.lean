-- SUMMARY: The lexemes that stand for a type, with no more parentheses than it needs.
import HeaderForms.Proofs.Expr.Rendering
import HeaderForms.Proofs.TypeExpr.Shape

/-!
# Rendering of types

Every type has a level, and so has every position in which a type stands. A greater level binds more
strongly:

* 0: unions
* 1: annotated types
* 2: ranges
* 3: primary types

A type is in parentheses exactly where its level is less than that of its position. An annotation
reaches over the union behind it, so that an annotated type needs none as the last alternative of a
union and does as any other. What stands in brackets or between separators is at level 0.
-/

namespace HeaderForms

def TypeExpr.level : TypeExpr → Nat
  | .union _ => 0
  | .annotated _ _ => 1
  | .range _ _ => 2
  | _ => 3

theorem TypeExpr.level_le (type : TypeExpr) : type.level ≤ 3 := by
  unfold level
  split <;> decide

/-! ## Bit strings -/

namespace Parser

def BitSegment.render : BitSegment → List Lexeme
  | .base bits => .var "_" :: .punct .colon :: Render.ofInt bits
  | .unit bits => .var "_" :: .punct .colon :: .var "_" :: .punct .star :: Render.ofInt bits

/-- The segments that a bit string type needs: what is zero is left out. -/
def bitSegments (base unit : Int) : List BitSegment :=
  (if base = 0 then [] else [.base base]) ++ if unit = 0 then [] else [.unit unit]

theorem bitstring_bitSegments (base unit : Int) :
    bitstring (bitSegments base unit) = .bitstring base unit := by
  unfold bitSegments
  split <;> split
  all_goals simp_all [bitstring]

end Parser

namespace TypeExpr

open Render

/-! ## Types -/

mutual

/-- The lexemes that stand for the type on its own. -/
def render : TypeExpr → List Lexeme
  | .var name => [.var name]
  | .atom name => [.atom name]
  | .integer value => ofInt value
  | .nil => [.punct .openBracket, .punct .closeBracket]
  | .named none name args =>
    .atom name :: .punct .openParen :: (commas (renders args) ++ [.punct .closeParen])
  | .named (some module) name args =>
    .atom module :: .punct .colon :: .atom name :: .punct .openParen ::
      (commas (renders args) ++ [.punct .closeParen])
  | .union alternatives => alternativeRenders alternatives
  | .range low high =>
    grouped 3 low.level (render low) ++ .punct .range :: grouped 3 high.level (render high)
  | .tuple items => .punct .openBrace :: (commas (renders items) ++ [.punct .closeBrace])
  | .list item => .punct .openBracket :: (render item ++ [.punct .closeBracket])
  | .nonEmptyList item =>
    .punct .openBracket ::
      (render item ++ [.punct .comma, .punct .ellipsis, .punct .closeBracket])
  | .map fields =>
    .punct .hash :: .punct .openBrace :: (commas (mapRenders fields) ++ [.punct .closeBrace])
  | .anyFun => [.keyword .fun_, .punct .openParen, .punct .closeParen]
  | .anyArgsFun result =>
    .keyword .fun_ :: .punct .openParen :: .punct .openParen :: .punct .ellipsis ::
      .punct .closeParen :: .punct .arrow :: (render result ++ [.punct .closeParen])
  | .fun_ args result =>
    .keyword .fun_ :: .punct .openParen :: .punct .openParen ::
      (commas (renders args) ++
        .punct .closeParen :: .punct .arrow :: (render result ++ [.punct .closeParen]))
  | .record name fields =>
    .punct .hash :: .atom name :: .punct .openBrace ::
      (commas (fieldRenders fields) ++ [.punct .closeBrace])
  | .annotated name type => .var name :: .punct .doubleColon :: render type
  | .bitstring base unit =>
    .punct .openBinary ::
      (commas ((Parser.bitSegments base unit).map Parser.BitSegment.render) ++
        [.punct .closeBinary])

def renders : List TypeExpr → List (List Lexeme)
  | [] => []
  | type :: types => render type :: renders types

/-- The alternatives of a union: the last one may be an annotated type. -/
def alternativeRenders : List TypeExpr → List Lexeme
  | [] => []
  | [type] => grouped 1 type.level (render type)
  | type :: types => grouped 2 type.level (render type) ++ .punct .bar :: alternativeRenders types

def mapRenders : List MapFieldType → List (List Lexeme)
  | [] => []
  | .mk key value exact :: fields =>
    (render key ++ .punct (if exact then .colonEquals else .rightDoubleArrow) :: render value) ::
      mapRenders fields

def fieldRenders : List FieldType → List (List Lexeme)
  | [] => []
  | .mk name type :: fields =>
    (.atom name :: .punct .doubleColon :: render type) :: fieldRenders fields

end

/-- The lexemes that stand for the type at a position. -/
def renderAt (position : Nat) (type : TypeExpr) : List Lexeme :=
  grouped position type.level (render type)

end TypeExpr

/-! ## Lists of parts -/

def MapFieldType.render : MapFieldType → List Lexeme
  | .mk key value exact =>
    key.render ++ .punct (if exact then .colonEquals else .rightDoubleArrow) :: value.render

def FieldType.render : FieldType → List Lexeme
  | .mk name type => .atom name :: .punct .doubleColon :: type.render

namespace TypeExpr

@[simp] theorem renders_eq_map (types : List TypeExpr) : renders types = types.map render := by
  induction types with
  | nil => rfl
  | cons type types ih => rw [renders, ih, List.map_cons]

@[simp] theorem mapRenders_eq_map (fields : List MapFieldType) :
    mapRenders fields = fields.map MapFieldType.render := by
  induction fields with
  | nil => rfl
  | cons field fields ih =>
    cases field
    rw [mapRenders, ih, List.map_cons, MapFieldType.render]

@[simp] theorem fieldRenders_eq_map (fields : List FieldType) :
    fieldRenders fields = fields.map FieldType.render := by
  induction fields with
  | nil => rfl
  | cons field fields ih =>
    cases field
    rw [fieldRenders, ih, List.map_cons, FieldType.render]

theorem alternativeRenders_singleton (type : TypeExpr) :
    alternativeRenders [type] = type.renderAt 1 := by
  rw [alternativeRenders, renderAt]

theorem alternativeRenders_cons (type other : TypeExpr) (types : List TypeExpr) :
    alternativeRenders (type :: other :: types) =
      type.renderAt 2 ++ .punct .bar :: alternativeRenders (other :: types) := by
  rw [alternativeRenders, renderAt]
  nofun

variable {position : Nat} {type : TypeExpr}

theorem renderAt_of_le (h : position ≤ type.level) : type.renderAt position = type.render :=
  if_neg (Nat.not_lt.2 h)

theorem renderAt_of_lt (h : type.level < position) :
    type.renderAt position = .punct .openParen :: (type.render ++ [.punct .closeParen]) :=
  if_pos h

theorem renderAt_zero (type : TypeExpr) : type.renderAt 0 = type.render :=
  renderAt_of_le (Nat.zero_le _)

/-- A type in parentheses begins as an expression does, whatever it begins with without them. -/
theorem opens_renderAt (h : Opens 0 type.render) (position : Nat) :
    Opens 0 (type.renderAt position) := by
  obtain hlt | hle := Nat.lt_or_ge type.level position
  · rw [renderAt_of_lt hlt]
    exact opens_cons rfl (Nat.zero_le 10)
  · rwa [renderAt_of_le hle]

end TypeExpr

end HeaderForms
