-- SUMMARY: The integers of declarations and expressions, and those that the parser negates, stay within 64 bits.
import HeaderForms.Proofs.Declaration.Conversion
import HeaderForms.Proofs.Declaration.Head
import HeaderForms.Proofs.Expr.Nodes
import HeaderForms.Proofs.Token.Lexer

/-!
# Integers of declarations

A token that is kept as a number is below 2^63, so its number and the negation of it are both signed
64-bit integers. The parser computes with numbers in one way only, by negating them, and a number
that it negates is again that of a token up to its sign, however many signs stand in front of it. So
all numbers of a tree lie between those two bounds. Arities are counted or are those of tokens, and
are kept when they are taken as signed 64-bit integers.
-/

namespace HeaderForms

open Numeral

/-! ## Numbers -/

/-- The number is as far from zero as a token can be at most. -/
def Numeral.InRange (number : Int) : Prop :=
  number.natAbs < int64Bound

/-- The lexeme, if it is an integer, is a signed 64-bit integer. -/
def Lexeme.InRange (lexeme : Lexeme) : Prop :=
  ∀ value, lexeme = .integer value → value < int64Bound

/-- The arity is the same when it is taken as a signed 64-bit integer. -/
def KeptArity (arity : Nat) : Prop :=
  (Int64.ofNat arity).toInt = arity

theorem Numeral.InRange.inInt64 {number : Int} (h : InRange number) :
    inInt64 number = true ∧ inInt64 (-number) = true := by
  unfold InRange at h
  simp only [Numeral.inInt64, Bool.and_eq_true, decide_eq_true_eq]
  omega

theorem Lexeme.inRange_integer {value : Nat} :
    (Lexeme.integer value).InRange ↔ value < int64Bound :=
  ⟨fun h => h value rfl, fun h _ heq => Lexeme.integer.inj heq ▸ h⟩

/-- What a text holds is in range: an integer of 2^63 or more is no number. -/
theorem Lexeme.IsLexed.inRange {lexeme : Lexeme} (h : lexeme.IsLexed) : lexeme.InRange := by
  rintro value rfl
  cases h with
  | integer hvalue =>
    simp only [inInt64, Bool.and_eq_true, decide_eq_true_eq] at hvalue
    omega

theorem keptArity_of_lt {arity : Nat} (h : arity < int64Bound) : KeptArity arity :=
  Int64.toInt_ofNat_of_lt h

/-! ## Trees -/

namespace Expr

/-- The numbers anywhere in the expression are in range, and the arities in it are kept. -/
structure InRange (expr : Expr) : Prop where
  numbers : ∀ inner : Expr, inner.Within expr → ∀ number ∈ inner.numbers, Numeral.InRange number
  arities : ∀ module name arity, (funRef module name arity).Within expr → KeptArity arity

theorem Shaped.inRange {expr : Expr} (h : expr.Shaped Lexeme.InRange) : expr.InRange := by
  have hnumbers : ∀ inner : Expr, inner.Within expr →
      ∀ number ∈ inner.numbers, Numeral.InRange number := fun inner hinner number hnumber =>
    Lexeme.inRange_integer.1 ((h.forall_within inner hinner).numbers number hnumber)
  refine ⟨hnumbers, fun module name arity hinner => keptArity_of_lt ?_⟩
  exact hnumbers _ hinner arity (List.mem_singleton.2 rfl)

end Expr

namespace TypeExpr

/-- The integers of the type itself. -/
def numbers : TypeExpr → List Int
  | .integer value => [value]
  | .bitstring base unit => [base, unit]
  | _ => []

/-- The numbers anywhere in the type are in range. -/
def InRange (type : TypeExpr) : Prop :=
  ∀ inner : TypeExpr, inner.Within type → ∀ number ∈ inner.numbers, Numeral.InRange number

theorem inRange_toNat (char : Char) : Numeral.InRange char.toNat :=
  Nat.lt_trans char.val.toNat_lt (Nat.pow_lt_pow_right (by decide) (by decide : 32 < 63))

theorem inRange_of_goodBits {bits : Int} (h : GoodBits Lexeme.InRange bits) :
    Numeral.InRange bits := by
  obtain rfl | hgood := h
  · exact Nat.two_pow_pos 63
  · exact Lexeme.inRange_integer.1 hgood

theorem Shaped.inRange {type : TypeExpr} (h : type.Shaped Lexeme.InRange) : type.InRange := by
  have hnode : ∀ type : TypeExpr, (∀ number ∈ type.numbers, Numeral.InRange number) →
      (∀ part ∈ type.parts, part.InRange) → type.InRange :=
    fun type hself hparts => forall_within_iff.2 ⟨hself, hparts⟩
  have hplain : ∀ type : TypeExpr, type.numbers = [] → (∀ part ∈ type.parts, part.InRange) →
      type.InRange :=
    fun type hnone => hnode type (hnone ▸ List.forall_mem_nil _)
  induction h with
  | integer hgood =>
    refine hnode _ (List.forall_mem_singleton.2 ?_) (List.forall_mem_nil _)
    obtain hgood | ⟨char, rfl⟩ := hgood
    · exact Lexeme.inRange_integer.1 hgood
    · exact inRange_toNat char
  | bitstring hbase hunit =>
    refine hnode _ (List.forall_mem_cons.2 ⟨inRange_of_goodBits hbase, ?_⟩) (List.forall_mem_nil _)
    exact List.forall_mem_singleton.2 (inRange_of_goodBits hunit)
  | var | atom | nil | anyFun => exact hplain _ rfl (List.forall_mem_nil _)
  | named _ ih | union _ _ ih | tuple _ ih => exact hplain _ rfl ih
  | list _ ih | nonEmptyList _ ih | anyArgsFun _ ih | annotated _ ih =>
    exact hplain _ rfl (List.forall_mem_singleton.2 ih)
  | range _ _ ihlow ihhigh =>
    exact hplain _ rfl (List.forall_mem_cons.2 ⟨ihlow, List.forall_mem_singleton.2 ihhigh⟩)
  | fun_ _ _ ihargs ihresult => exact hplain _ rfl (List.forall_mem_cons.2 ⟨ihresult, ihargs⟩)
  | map _ ih => exact hplain _ rfl (List.forall_mem_flatMap.2 ih)
  | record _ ih => exact hplain _ rfl (List.forall_mem_map.2 ih)

end TypeExpr

namespace Parser

variable {limit : Nat} {tokens rest : List Token}

/-! ## Negations -/

/-- Somewhere in the tokens a minus sign stands in front of something that is read as this number,
and the parser, where it comes there, negates the number. -/
inductive Negates (tokens : List Token) : Int → Prop where
  /-- The sign of an expression. The operand may have signs of its own. -/
  | operator {limit rounds line : Nat} {behind rest : List Token} {number : Int}
    (hsign : ⟨.punct .minus, line⟩ :: behind <:+ tokens)
    (hoperand : prefixFrom (postfixLevel (limit + 1) (exprWithin limit)) rounds behind =
      .ok (.integer number, rest)) : Negates tokens number
  /-- The sign of an element of a binary. -/
  | element {limit depth line : Nat} {behind rest : List Token} {number : Int}
    (hsign : ⟨.punct .minus, line⟩ :: behind <:+ tokens)
    (hvalue : primaryWithin (limit + 1) (exprWithin limit) depth behind =
      .ok (.integer number, rest)) : Negates tokens number
  /-- The sign of an integer in a type, a unit or an arity. -/
  | numeral {line : Nat} {behind rest : List Token} {value : Nat}
    (hsign : ⟨.punct .minus, line⟩ :: behind <:+ tokens)
    (hvalue : take .integer natural? behind = .ok (value, rest)) : Negates tokens value

theorem inRange_of_negates {number : Int} (hgood : ∀ token ∈ tokens, token.lexeme.InRange)
    (h : Negates tokens number) : Numeral.InRange number := by
  have hbehind : ∀ {sign : Token} {behind : List Token}, sign :: behind <:+ tokens →
      ∀ token ∈ behind, token.lexeme.InRange :=
    fun hsign token htoken => hgood token (hsign.subset (List.mem_cons_of_mem _ htoken))
  have hshaped : (Expr.integer number).Shaped Lexeme.InRange → Numeral.InRange number := by
    intro hshaped
    cases hshaped with
    | integer hnumber => exact Lexeme.inRange_integer.1 hnumber
  have hnested : ∀ limit, Keeps Lexeme.InRange (exprWithin limit) (Expr.Shaped Lexeme.InRange) :=
    keeps_exprWithin
  cases h with
  | @operator limit rounds _ _ _ _ hsign hoperand =>
    have hlevel := keeps_postfixLevel limit.succ_pos (hnested limit)
    exact hshaped (keeps_prefixFrom hlevel rounds _ (hbehind hsign) hoperand).1
  | @element limit depth _ _ _ _ hsign hvalue =>
    have hprimary := keeps_primaryWithin limit.succ_pos (hnested limit) depth
    exact hshaped (hprimary _ (hbehind hsign) hvalue).1
  | numeral hsign hvalue =>
    obtain ⟨token, rfl, hselect⟩ := exists_of_take hvalue
    exact hbehind hsign token List.mem_cons_self _ (natural?_eq_some hselect)

/-! ## Integers that are too large -/

theorem takesAll_declaration : TakesAll (declaration limit) := by
  have hend : ∀ parsed : Declaration, TakesAll (do
      expectEnd
      return parsed) := by
    intro parsed
    refine takesAll_expectEnd fun value rest hpure => ?_
    cases hpure
    rfl
  refine takesAll_bind fun minus => ?_
  cases minus with
  | true => exact takesAll_bind hend
  | false => exact takesAll_bind hend

theorem takesAll_singleExpr : TakesAll (singleExpr limit) := by
  refine takesAll_bind fun found => takesAll_expectEnd fun value rest hlast => ?_
  split at hlast
  case h_1 =>
    cases hlast
    rfl
  case h_2 => cases hlast

/-! ## Arities -/

theorem yields_head : Yields (head limit) fun head => head.arity ≤ limit := by
  have hspec : ∀ name, Yields (specHead limit name) fun head => head.arity ≤ limit :=
    fun name => (yields_any.bind fun _ _ => yields_delimited).bind fun _ hlength =>
      yields_pure hlength
  have hfunction : Yields (functionHead limit) fun head => head.arity ≤ limit :=
    yields_any.bind fun _ _ => (yields_any.bind fun _ _ => yields_delimited).bind
      fun _ hlength => yields_pure hlength
  have hattribute : ∀ name, Yields (attributeHead limit name) fun head => head.arity ≤ limit := by
    intro name
    have hzero : ∀ kind, ∀ name, Yields (pure (⟨kind, name, 0⟩ : Head)) fun head =>
        head.arity ≤ limit := fun _ _ => yields_pure (Nat.zero_le limit)
    unfold attributeHead
    split
    case h_1 => exact yields_any.bind fun _ _ => yields_any.bind fun _ _ => hzero _ _
    case h_2 | h_3 => exact yields_any.bind fun _ _ => hzero _ _
    case h_4 =>
      refine yields_any.bind fun first _ => yields_any.bind fun isRemote _ => ?_
      exact .ite (yields_any.bind fun name _ => hspec name) (hspec first)
    case h_5 | h_6 => exact yields_unexpected
    case h_7 => exact hzero _ _
  refine yields_any.bind fun isAttribute _ => .ite ?_ hfunction
  exact yields_any.bind fun name _ => .ite (yields_any.bind fun _ _ => hattribute name)
    (hattribute name)

/-- A declaration has no more arguments than the grammar takes in one list. -/
theorem arity_le_of_declaration (hlimit : 0 < limit) {parsed : Declaration} {found : Head}
    (h : declaration limit tokens = .ok (parsed, rest)) (hhead : parsed.head? = some found) :
    found.arity ≤ limit := by
  obtain ⟨body, hbody⟩ := cuts_declaration hlimit h hhead
  exact yields_head hbody

end Parser

/-! ## Declarations -/

namespace Declaration

variable {tokens : List Token} {declaration : Declaration}

/-- The arities that the forms of declarations show. -/
def arities : Declaration → List Nat
  | .spec _ arity _ | .function _ arity _ => [arity]
  | .exports functions | .imports _ functions => functions.map (·.arity)
  | _ => []

/-- All numbers in the declaration are in range, and all arities are kept. -/
structure InRange (declaration : Declaration) : Prop where
  exprs : ∀ expr ∈ declaration.exprs, expr.InRange
  types : ∀ type ∈ declaration.types, type.InRange
  arities : ∀ arity ∈ declaration.arities, KeptArity arity

theorem Shaped.types {good : Lexeme → Prop} (h : declaration.Shaped good) :
    ∀ type ∈ declaration.types, type.Shaped good := by
  cases h with
  | record hfields =>
    intro type hmem
    obtain ⟨field, hfield, htype⟩ := List.mem_filterMap.1 hmem
    exact (hfields field hfield).type type htype
  | type hdefinition | opaqueType hdefinition => exact List.forall_mem_singleton.2 hdefinition
  | spec _ _ hsignatures =>
    refine List.forall_mem_flatMap.2 fun signature hmem => ?_
    obtain ⟨hargs, hresult, hconstraints⟩ := hsignatures signature hmem
    exact List.forall_mem_append.2
      ⟨hargs, List.forall_mem_cons.2 ⟨hresult, List.forall_mem_map.2 hconstraints⟩⟩
  | _ => exact List.forall_mem_nil _

theorem inRange_of_nil (hexprs : declaration.exprs = []) (htypes : declaration.types = [])
    (harities : declaration.arities = []) : declaration.InRange where
  exprs := hexprs ▸ List.forall_mem_nil _
  types := htypes ▸ List.forall_mem_nil _
  arities := harities ▸ List.forall_mem_nil _

/-- The numbers of a declaration are those of its tokens, and its own arity is a count. -/
theorem inRange_of_ofTokens (hgood : ∀ token ∈ tokens, token.lexeme.InRange)
    (hlength : tokens.length + 1 < int64Bound) (h : ofTokens tokens = .ok declaration) :
    declaration.InRange := by
  obtain ⟨rest, hok⟩ | ⟨head, reason, rfl⟩ := parsed_or_unsupported h
  case inr => exact inRange_of_nil rfl rfl rfl
  case inl =>
    have hshaped := (Parser.keeps_declaration (Nat.succ_pos _) tokens hgood hok).1
    have hcount : ∀ head, declaration.head? = some head → KeptArity head.arity := fun head hhead =>
      keptArity_of_lt (Nat.lt_of_le_of_lt
        (Parser.arity_le_of_declaration (Nat.succ_pos _) hok hhead) hlength)
    refine ⟨fun expr hmem => (hshaped.exprs expr hmem).inRange,
      fun type hmem => (hshaped.types type hmem).inRange, ?_⟩
    cases hshaped with
    | spec | function => exact List.forall_mem_singleton.2 (hcount _ rfl)
    | exports hnames | imports hnames =>
      refine List.forall_mem_map.2 fun function hmem => keptArity_of_lt ?_
      exact Lexeme.inRange_integer.1 (hnames function hmem)
    | _ => exact List.forall_mem_nil _

end Declaration

end HeaderForms
