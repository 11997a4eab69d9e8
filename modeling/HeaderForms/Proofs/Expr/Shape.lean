-- SUMMARY: The shape of the expressions that the grammar gives.
import HeaderForms.Expr.Parser
import HeaderForms.Proofs.Token.Parser

/-!
# The shape of expressions

Expressions are a plain type of trees, and not every tree is one that the grammar gives: a clause
has a body, a clause of a `case` has one pattern, and a sign in front of a number is part of the
number. `Expr.Shaped` holds of the trees with such a shape all the way down, and of every expression
that tokens hold. Numbers in it are those of the tokens, up to their signs.
-/

namespace HeaderForms

/-! ## Parts -/

namespace Clause

def parts (clause : Clause) : List Expr :=
  clause.patterns ++ clause.guards.flatten ++ clause.body

/-- Neither a guard nor the body is empty. -/
structure Complete (clause : Clause) : Prop where
  guards : ∀ guard ∈ clause.guards, guard ≠ []
  body : clause.body ≠ []

end Clause

def MapField.parts : MapField → List Expr
  | .mk key value _ => [key, value]

def FieldValue.value : FieldValue → Expr
  | .mk _ value => value

def Qualifier.parts : Qualifier → List Expr
  | .generator pattern source => [pattern, source]
  | .bitGenerator pattern source => [pattern, source]
  | .filter test => [test]

/-- The sign that a value in a binary begins with, and the value behind it. -/
def Expr.sign? : Expr → Option (UnaryOp × Expr)
  | .unaryOp .plus operand => some (.plus, operand)
  | .unaryOp .minus operand => some (.minus, operand)
  | _ => none

namespace BinElement

/-- The primary expressions of an element: its value behind a sign, and its size. -/
def parts : BinElement → List Expr
  | .mk value size _ => (value.sign?.elim value (·.2)) :: size.toList

def units : BinElement → List Int
  | .mk _ _ specs => specs.filterMap (·.2)

/-- The sign of the value, if it has one, is not part of a number. -/
def SignKept : BinElement → Prop
  | .mk value _ _ => ∀ op operand, value.sign? = some (op, operand) →
    Parser.signedElement op operand = .unaryOp op operand

end BinElement

/-! ## Shapes -/

/-- The expression has the shape that the grammar gives it, and the numbers in it are good. -/
inductive Expr.Shaped (good : Lexeme → Prop) : Expr → Prop where
  | atom {name : String} : Shaped good (.atom name)
  | var {name : String} : Shaped good (.var name)
  | integer {value : Int} (hgood : good (.integer value.natAbs)) : Shaped good (.integer value)
  | float {value : Float64} : Shaped good (.float value)
  | char {value : Char} : Shaped good (.char value)
  | string {text : String} : Shaped good (.string text)
  | nil : Shaped good .nil
  | cons {head tail : Expr} (hhead : Shaped good head) (htail : Shaped good tail) :
    Shaped good (.cons head tail)
  | tuple {items : List Expr} (hitems : ∀ item ∈ items, Shaped good item) :
    Shaped good (.tuple items)
  | binary {elements : List BinElement} (hsigns : ∀ element ∈ elements, element.SignKept)
    (hunits : ∀ element ∈ elements, ∀ unit ∈ element.units, good (.integer unit.natAbs))
    (hparts : ∀ element ∈ elements, ∀ part ∈ element.parts, Shaped good part) :
    Shaped good (.binary elements)
  | map {fields : List MapField}
    (hparts : ∀ field ∈ fields, ∀ part ∈ field.parts, Shaped good part) :
    Shaped good (.map fields)
  | mapUpdate {base : Expr} {fields : List MapField} (hbase : Shaped good base)
    (hparts : ∀ field ∈ fields, ∀ part ∈ field.parts, Shaped good part) :
    Shaped good (.mapUpdate base fields)
  | recordNew {name : String} {fields : List FieldValue}
    (hvalues : ∀ field ∈ fields, Shaped good field.value) : Shaped good (.recordNew name fields)
  | recordUpdate {record : Expr} {name : String} {fields : List FieldValue}
    (hrecord : Shaped good record) (hvalues : ∀ field ∈ fields, Shaped good field.value) :
    Shaped good (.recordUpdate record name fields)
  | recordField {record : Expr} {name field : String} (hrecord : Shaped good record) :
    Shaped good (.recordField record name field)
  | recordIndex {name field : String} : Shaped good (.recordIndex name field)
  | binaryOp {op : BinaryOp} {left right : Expr} (hleft : Shaped good left)
    (hright : Shaped good right) : Shaped good (.binaryOp op left right)
  | unaryOp {op : UnaryOp} {operand : Expr} (hkept : Parser.signed op operand = .unaryOp op operand)
    (hoperand : Shaped good operand) : Shaped good (.unaryOp op operand)
  | match_ {pattern value : Expr} (hpattern : Shaped good pattern) (hvalue : Shaped good value) :
    Shaped good (.match_ pattern value)
  | call {function : Expr} {args : List Expr} (hfunction : Shaped good function)
    (hargs : ∀ arg ∈ args, Shaped good arg) : Shaped good (.call function args)
  | remoteCall {module function : Expr} {args : List Expr} (hmodule : Shaped good module)
    (hfunction : Shaped good function) (hargs : ∀ arg ∈ args, Shaped good arg) :
    Shaped good (.remoteCall module function args)
  | block {body : List Expr} (hne : body ≠ []) (hbody : ∀ expr ∈ body, Shaped good expr) :
    Shaped good (.block body)
  | case_ {subject : Expr} {clauses : List Clause} (hsubject : Shaped good subject)
    (hne : clauses ≠ []) (hcomplete : ∀ clause ∈ clauses, clause.Complete)
    (hpatterns : ∀ clause ∈ clauses, ∃ pattern, clause.patterns = [pattern])
    (hparts : ∀ clause ∈ clauses, ∀ part ∈ clause.parts, Shaped good part) :
    Shaped good (.case_ subject clauses)
  | if_ {clauses : List Clause} (hne : clauses ≠ [])
    (hcomplete : ∀ clause ∈ clauses, clause.Complete)
    (hguards : ∀ clause ∈ clauses, clause.patterns = [] ∧ clause.guards ≠ [])
    (hparts : ∀ clause ∈ clauses, ∀ part ∈ clause.parts, Shaped good part) :
    Shaped good (.if_ clauses)
  | fun_ {clauses : List Clause} (hne : clauses ≠ [])
    (hcomplete : ∀ clause ∈ clauses, clause.Complete)
    (hparts : ∀ clause ∈ clauses, ∀ part ∈ clause.parts, Shaped good part) :
    Shaped good (.fun_ clauses)
  | funRef {module : Option String} {name : String} {arity : Nat}
    (hgood : good (.integer arity)) : Shaped good (.funRef module name arity)
  | catch_ {body : Expr} (hbody : Shaped good body) : Shaped good (.catch_ body)
  | comprehension {body : Expr} {qualifiers : List Qualifier} (hbody : Shaped good body)
    (hparts : ∀ qualifier ∈ qualifiers, ∀ part ∈ qualifier.parts, Shaped good part) :
    Shaped good (.comprehension body qualifiers)

namespace Parser

open HeaderForms.Expr (Shaped)

variable {good : Lexeme → Prop} {nested : Parser Expr} {limit : Nat}

/-! ## Operators -/

/-- A prefix operator stays beside its operand, save for a sign in front of a number. -/
theorem shaped_signed (op : UnaryOp) {operand : Expr} (h : operand.Shaped good) :
    (signed op operand).Shaped good := by
  cases op with
  | not_ | bnot => exact .unaryOp (by cases operand <;> rfl) h
  | plus =>
    cases h with
    | integer hgood => exact .integer hgood
    | float => exact .float
    | _ => exact .unaryOp rfl (by constructor <;> assumption)
  | minus =>
    cases h with
    | integer hgood => exact .integer (by rwa [Int.natAbs_neg])
    | float => exact .float
    | _ => exact .unaryOp rfl (by constructor <;> assumption)

theorem takes_sign {op : UnaryOp} {lexeme : Lexeme} (h : signOp? lexeme = some op) :
    op = .plus ∨ op = .minus := by
  unfold signOp? at h
  split at h
  case h_1 => exact .inl (Option.some.inj h).symm
  case h_2 => exact .inr (Option.some.inj h).symm
  case h_3 => cases h

/-! ## Sequences and clauses -/

theorem keeps_exprs (hlimit : 0 < limit) (h : Keeps good nested (Shaped good)) :
    Keeps good (exprs limit nested) (fun items => (∀ item ∈ items, item.Shaped good) ∧ items ≠ []) :=
  keeps_separated h hlimit

theorem keeps_arguments (h : Keeps good nested (Shaped good)) :
    Keeps good (arguments limit nested) (fun args => ∀ arg ∈ args, arg.Shaped good) :=
  keeps_expectPunct.bind fun _ _ => keeps_delimited h limit

theorem keeps_guards (hlimit : 0 < limit) (h : Keeps good nested (Shaped good)) :
    Keeps good (guards limit nested) (fun guards =>
      (∀ guard ∈ guards, (∀ test ∈ guard, test.Shaped good) ∧ guard ≠ []) ∧ guards ≠ []) :=
  keeps_separated (keeps_exprs hlimit h) hlimit

/-- The clause is complete, and its parts have their shapes. -/
def ClauseShaped (good : Lexeme → Prop) (clause : Clause) : Prop :=
  clause.Complete ∧ ∀ part ∈ clause.parts, part.Shaped good

theorem clauseShaped_mk {patterns body : List Expr} {guards : List (List Expr)}
    (hpatterns : ∀ pattern ∈ patterns, pattern.Shaped good)
    (hguards : ∀ guard ∈ guards, (∀ test ∈ guard, test.Shaped good) ∧ guard ≠ [])
    (hbody : (∀ expr ∈ body, expr.Shaped good) ∧ body ≠ []) :
    ClauseShaped good (.mk patterns guards body) := by
  refine ⟨⟨fun guard hmem => (hguards guard hmem).2, hbody.2⟩, fun part hpart => ?_⟩
  simp only [Clause.parts, Clause.patterns, Clause.guards, Clause.body, List.mem_append,
    List.mem_flatten] at hpart
  obtain (hpattern | ⟨guard, hguard, htest⟩) | hbodyPart := hpart
  · exact hpatterns part hpattern
  · exact (hguards guard hguard).1 part htest
  · exact hbody.1 part hbodyPart

theorem keeps_clauseRest (hlimit : 0 < limit) (h : Keeps good nested (Shaped good))
    {patterns : List Expr} (hpatterns : ∀ pattern ∈ patterns, pattern.Shaped good) :
    Keeps good (clauseRest limit nested patterns) (fun clause =>
      ClauseShaped good clause ∧ clause.patterns = patterns) := by
  have hrest : ∀ guards : List (List Expr),
      (∀ guard ∈ guards, (∀ test ∈ guard, test.Shaped good) ∧ guard ≠ []) →
      Keeps good (do
        expectPunct .arrow
        return .mk patterns guards (← exprs limit nested)) (fun clause =>
          ClauseShaped good clause ∧ clause.patterns = patterns) := by
    intro guards hguards
    refine keeps_expectPunct.bind fun _ _ => (keeps_exprs hlimit h).bind fun body hbody => ?_
    exact keeps_pure ⟨clauseShaped_mk hpatterns hguards hbody, rfl⟩
  refine keeps_eatKeyword.bind fun guarded _ => ?_
  cases guarded with
  | true => exact (keeps_guards hlimit h).bind fun guards hguards => hrest guards hguards.1
  | false => exact hrest [] (List.forall_mem_nil _)

theorem keeps_caseClause (hlimit : 0 < limit) (h : Keeps good nested (Shaped good)) :
    Keeps good (caseClause limit nested) (fun clause =>
      ClauseShaped good clause ∧ ∃ pattern, clause.patterns = [pattern]) := by
  refine h.bind fun pattern hpattern => ?_
  exact (keeps_clauseRest hlimit h (List.forall_mem_singleton.2 hpattern)).mono
    fun clause hclause => ⟨hclause.1, pattern, hclause.2⟩

theorem keeps_funClause (hlimit : 0 < limit) (h : Keeps good nested (Shaped good)) :
    Keeps good (funClause limit nested) (ClauseShaped good) := by
  refine (keeps_arguments h).bind fun patterns hpatterns => ?_
  exact (keeps_clauseRest hlimit h hpatterns).mono fun clause hclause => hclause.1

theorem keeps_ifClause (hlimit : 0 < limit) (h : Keeps good nested (Shaped good)) :
    Keeps good (ifClause limit nested) (fun clause =>
      ClauseShaped good clause ∧ clause.patterns = [] ∧ clause.guards ≠ []) := by
  refine (keeps_guards hlimit h).bind fun guards hguards => ?_
  refine keeps_expectPunct.bind fun _ _ => (keeps_exprs hlimit h).bind fun body hbody => ?_
  exact keeps_pure ⟨clauseShaped_mk (List.forall_mem_nil _) hguards.1 hbody, rfl, hguards.2⟩

theorem keeps_clausesToEnd (hlimit : 0 < limit) {clause : Parser Clause} {post : Clause → Prop}
    (h : Keeps good clause post) :
    Keeps good (clausesToEnd limit clause) (fun clauses =>
      (∀ clause ∈ clauses, post clause) ∧ clauses ≠ []) := by
  refine (keeps_separated h hlimit).bind fun clauses hclauses => ?_
  exact keeps_expectKeyword.bind fun _ _ => keeps_pure hclauses

/-! ## Fields -/

theorem keeps_mapField (h : Keeps good nested (Shaped good)) :
    Keeps good (mapField nested) (fun field => ∀ part ∈ field.parts, part.Shaped good) := by
  refine h.bind fun key hkey => (keeps_take fun _ => rfl).bind fun exact _ => ?_
  exact h.bind fun value hvalue => keeps_pure (by simp [MapField.parts, hkey, hvalue])

theorem keeps_fieldValue (h : Keeps good nested (Shaped good)) :
    Keeps good (fieldValue nested) (fun field => field.value.Shaped good) :=
  (keeps_takeAny fun _ => rfl).bind fun _ _ => keeps_expectPunct.bind fun _ _ =>
    h.bind fun _ hvalue => keeps_pure hvalue

theorem keeps_hashRest (h : Keeps good nested (Shaped good)) {map : List MapField → Expr}
    {access : String → String → Expr} {record : String → List FieldValue → Expr}
    (hmap : ∀ fields, (∀ field ∈ fields, ∀ part ∈ field.parts, part.Shaped good) →
      (map fields).Shaped good)
    (haccess : ∀ name field, (access name field).Shaped good)
    (hrecord : ∀ name fields, (∀ field ∈ fields, field.value.Shaped good) →
      (record name fields).Shaped good) :
    Keeps good (hashRest limit nested map access record) (Shaped good) := by
  refine keeps_eatPunct.bind fun isMap _ => ?_
  cases isMap with
  | true =>
    exact (keeps_delimited (keeps_mapField h) limit).bind fun fields hfields =>
      keeps_pure (hmap fields hfields)
  | false =>
    refine keeps_expectAtom.bind fun name _ => keeps_eatPunct.bind fun isAccess _ => ?_
    cases isAccess with
    | true => exact keeps_expectAtom.bind fun field _ => keeps_pure (haccess name field)
    | false =>
      refine keeps_expectPunct.bind fun _ _ => ?_
      exact (keeps_delimited (keeps_fieldValue h) limit).bind fun fields hfields =>
        keeps_pure (hrecord name fields hfields)

/-! ## Primary expressions -/

theorem keeps_qualifier (h : Keeps good nested (Shaped good)) :
    Keeps good (listRest.qualifier nested) (fun qualifier =>
      ∀ part ∈ qualifier.parts, part.Shaped good) := by
  refine h.bind fun pattern hpattern => keeps_eatPunct.bind fun isGenerator _ => ?_
  cases isGenerator with
  | true =>
    exact h.bind fun source hsource => keeps_pure (by simp [Qualifier.parts, hpattern, hsource])
  | false =>
    refine keeps_eatPunct.bind fun isBitGenerator _ => ?_
    cases isBitGenerator with
    | true =>
      exact h.bind fun source hsource => keeps_pure (by simp [Qualifier.parts, hpattern, hsource])
    | false => exact keeps_pure (by simp [Qualifier.parts, hpattern])

theorem shaped_foldr {items : List Expr} {tail : Expr} (hitems : ∀ item ∈ items, item.Shaped good)
    (htail : tail.Shaped good) : (items.foldr .cons tail).Shaped good := by
  induction items with
  | nil => exact htail
  | cons item items ih =>
    obtain ⟨hitem, hitems⟩ := List.forall_mem_cons.1 hitems
    exact .cons hitem (ih hitems)

theorem keeps_listRest (hlimit : 0 < limit) (h : Keeps good nested (Shaped good)) :
    Keeps good (listRest limit nested) (Shaped good) := by
  have hclose : ∀ items : List Expr, (∀ item ∈ items, item.Shaped good) → ∀ tail : Expr,
      tail.Shaped good → Keeps good (do
        expectPunct .closeBracket
        return items.foldr .cons tail) (Shaped good) :=
    fun items hitems tail htail =>
      keeps_expectPunct.bind fun _ _ => keeps_pure (shaped_foldr hitems htail)
  have htail : ∀ items : List Expr, (∀ item ∈ items, item.Shaped good) → Keeps good (do
      let tail ← if ← eatPunct .bar then nested else pure .nil
      expectPunct .closeBracket
      return items.foldr .cons tail) (Shaped good) := by
    intro items hitems
    refine keeps_eatPunct.bind fun improper _ => ?_
    cases improper with
    | true => exact h.bind fun tail htail => hclose items hitems tail htail
    | false => exact hclose items hitems .nil .nil
  refine keeps_eatPunct.bind fun isNil _ => ?_
  cases isNil with
  | true => exact keeps_pure .nil
  | false =>
    refine h.bind fun head hhead => keeps_eatPunct.bind fun isComprehension _ => ?_
    cases isComprehension with
    | true =>
      exact (keeps_delimited (keeps_qualifier h) limit).bind fun qualifiers hqualifiers =>
        keeps_pure (.comprehension hhead hqualifiers)
    | false =>
      refine keeps_eatPunct.bind fun more _ => ?_
      cases more with
      | true =>
        exact (keeps_exprs hlimit h).bind fun others hothers =>
          htail (head :: others) (List.forall_mem_cons.2 ⟨hhead, hothers.1⟩)
      | false => exact htail [head] (List.forall_mem_singleton.2 hhead)

theorem keeps_elementSpec :
    Keeps good elementSpec (fun spec => ∀ unit ∈ spec.2, good (.integer unit.natAbs)) := by
  have hunit : Keeps good (some <$> expectInteger) (fun unit =>
      ∀ value ∈ unit, good (.integer value.natAbs)) :=
    keeps_expectInteger.map fun value hvalue => by simpa using hvalue
  refine keeps_expectAtom.bind fun name _ => keeps_eatPunct.bind fun hasUnit _ => ?_
  cases hasUnit with
  | true => exact hunit.bind fun unit hgood => keeps_pure hgood
  | false => exact keeps_pure fun _ hnone => (nomatch hnone)

/-- The sign that a value begins with is no part of a number, and what it stands before has its
shape. -/
def ValueShaped (good : Lexeme → Prop) (value : Expr) : Prop :=
  (∀ op operand, value.sign? = some (op, operand) →
    signedElement op operand = .unaryOp op operand) ∧ (value.sign?.elim value (·.2)).Shaped good

/-- In front of an element a plus sign stays beside a number too. -/
theorem valueShaped_signedElement {op : UnaryOp} (hop : op = .plus ∨ op = .minus) {operand : Expr}
    (h : operand.Shaped good) : ValueShaped good (signedElement op operand) := by
  obtain rfl | rfl := hop
  · refine ⟨fun op' operand' hsign => ?_, h⟩
    cases hsign
    rfl
  · cases h with
    | integer hgood => exact ⟨nofun, .integer (by rwa [Int.natAbs_neg])⟩
    | float => exact ⟨nofun, .float⟩
    | _ =>
      refine ⟨fun op' operand' hsign => ?_, by constructor <;> assumption⟩
      cases hsign
      rfl

theorem signed_minus (operand : Expr) : signed .minus operand = signedElement .minus operand := by
  cases operand <;> rfl

theorem valueShaped_of_shaped {value : Expr} (h : value.Shaped good) : ValueShaped good value := by
  cases h with
  | @unaryOp op operand hkept hoperand =>
    cases op with
    | plus => exact valueShaped_signedElement (.inl rfl) hoperand
    | minus =>
      rw [signed_minus] at hkept
      rw [← hkept]
      exact valueShaped_signedElement (.inr rfl) hoperand
    | not_ | bnot => exact ⟨nofun, .unaryOp hkept hoperand⟩
  | _ => exact ⟨nofun, by constructor <;> assumption⟩

/-- The signs, the units and the parts of an element have their shapes. -/
def ElementShaped (good : Lexeme → Prop) (element : BinElement) : Prop :=
  element.SignKept ∧ (∀ unit ∈ element.units, good (.integer unit.natAbs)) ∧
    ∀ part ∈ element.parts, part.Shaped good

theorem elementShaped_mk {value : Expr} {size : Option Expr} {specs : List (String × Option Int)}
    (hvalue : ValueShaped good value) (hsize : ∀ expr ∈ size, expr.Shaped good)
    (hspecs : ∀ spec ∈ specs, ∀ unit ∈ spec.2, good (.integer unit.natAbs)) :
    ElementShaped good (.mk value size specs) := by
  refine ⟨hvalue.1, fun unit hunit => ?_, fun part hpart => ?_⟩
  · obtain ⟨spec, hspec, hsome⟩ := List.mem_filterMap.1 hunit
    exact hspecs spec hspec unit hsome
  · obtain rfl | hsizePart := List.mem_cons.1 hpart
    · exact hvalue.2
    · exact hsize part (Option.mem_toList.1 hsizePart)

theorem keeps_binElement (hlimit : 0 < limit) {primary : Parser Expr}
    (h : Keeps good primary (Shaped good)) :
    Keeps good (binElement limit primary) (ElementShaped good) := by
  have hspecs : ∀ value, ValueShaped good value → ∀ size : Option Expr,
      (∀ expr ∈ size, expr.Shaped good) → Keeps good (do
        let specs ← if ← eatPunct .slash then separated limit .minus elementSpec else pure []
        return .mk value size specs) (ElementShaped good) := by
    intro value hvalue size hsize
    refine keeps_eatPunct.bind fun hasSpecs _ => ?_
    cases hasSpecs with
    | true =>
      exact (keeps_separated keeps_elementSpec hlimit).bind fun specs hspecs =>
        keeps_pure (elementShaped_mk hvalue hsize hspecs.1)
    | false => exact keeps_pure (elementShaped_mk hvalue hsize (List.forall_mem_nil _))
  have hsize : ∀ value, ValueShaped good value → Keeps good (do
      let size ← if ← eatPunct .colon then some <$> primary else pure none
      let specs ← if ← eatPunct .slash then separated limit .minus elementSpec else pure []
      return .mk value size specs) (ElementShaped good) := by
    intro value hvalue
    have hsome : Keeps good (some <$> primary) (fun size => ∀ expr ∈ size, expr.Shaped good) :=
      h.map fun expr hexpr => by simpa using hexpr
    refine keeps_eatPunct.bind fun hasSize _ => ?_
    cases hasSize with
    | true => exact hsome.bind fun size hsize => hspecs value hvalue size hsize
    | false => exact hspecs value hvalue none fun _ hnone => (nomatch hnone)
  refine (keeps_take? fun _ => rfl).bind fun op hop => ?_
  cases op with
  | none => exact h.bind fun value hvalue => hsize value (valueShaped_of_shaped hvalue)
  | some op =>
    obtain ⟨lexeme, _, hselect⟩ := hop op rfl
    refine (h.map fun operand hoperand => ?_).bind hsize
    exact valueShaped_signedElement (takes_sign hselect) hoperand

theorem keeps_binaryRest (hlimit : 0 < limit) {primary : Parser Expr}
    (h : Keeps good primary (Shaped good)) :
    Keeps good (binaryRest limit primary) (Shaped good) := by
  refine keeps_eatPunct.bind fun isEmpty _ => ?_
  cases isEmpty with
  | true =>
    exact keeps_pure (.binary (List.forall_mem_nil _) (List.forall_mem_nil _) (List.forall_mem_nil _))
  | false =>
    refine (keeps_separated (keeps_binElement hlimit h) hlimit).bind fun elements helements => ?_
    refine keeps_expectPunct.bind fun _ _ => keeps_pure (.binary ?_ ?_ ?_)
    · exact fun element hmem => (helements.1 element hmem).1
    · exact fun element hmem => (helements.1 element hmem).2.1
    · exact fun element hmem => (helements.1 element hmem).2.2

theorem keeps_funRest (hlimit : 0 < limit) (h : Keeps good nested (Shaped good)) :
    Keeps good (funRest limit nested) (Shaped good) := by
  have hlocal : ∀ name : String, Keeps good (do
      return Expr.funRef none name (← expectArity)) (Shaped good) :=
    fun name => keeps_expectArity.bind fun arity hgood => keeps_pure (.funRef hgood)
  have hremote : ∀ module : String, Keeps good (do
      let name ← expectAtom
      expectPunct .slash
      return Expr.funRef (some module) name (← expectArity)) (Shaped good) :=
    fun module => keeps_expectAtom.bind fun name _ => keeps_expectPunct.bind fun _ _ =>
      keeps_expectArity.bind fun arity hgood => keeps_pure (.funRef hgood)
  intro tokens
  refine keepsFrom_peekTwo ?_
  split
  case h_1 name hahead =>
    have hskip : KeepsFrom good tokens (skip 2) (fun _ => True) :=
      keepsFrom_skipTwo hahead (fun _ => nofun) fun _ => nofun
    exact hskip.bind fun _ _ => hlocal name
  case h_2 module hahead =>
    have hskip : KeepsFrom good tokens (skip 2) (fun _ => True) :=
      keepsFrom_skipTwo hahead (fun _ => nofun) fun _ => nofun
    exact hskip.bind fun _ _ => hremote module
  case h_3 =>
    have hclause := keeps_funClause hlimit h
    refine (keeps_clausesToEnd hlimit hclause).bind (fun clauses hclauses => ?_) tokens
    refine keeps_pure (.fun_ hclauses.2 ?_ ?_)
    · exact fun clause hmem => (hclauses.1 clause hmem).1
    · exact fun clause hmem => (hclauses.1 clause hmem).2
  case h_4 => exact keeps_fail tokens

theorem keeps_strings : Keeps good strings (fun _ => True) := by
  intro tokens value rest htokens hstrings
  cases hstrings
  refine ⟨trivial, _, (List.prefix_iff_eq_append.1 (List.takeWhile_prefix _)).symm, ?_⟩
  intro token htoken text hbig
  have hstring := List.all_eq_true.1 List.all_takeWhile token htoken
  dsimp only at hstring
  rw [hbig] at hstring
  cases hstring

theorem keeps_primaryWithin (hlimit : 0 < limit) (h : Keeps good nested (Shaped good))
    (depth : Nat) : Keeps good (primaryWithin limit nested depth) (Shaped good) := by
  induction depth with
  | zero => exact keeps_unexpected
  | succ depth ih =>
    intro tokens
    refine keepsFrom_peek ?_
    cases tokens with
    | nil => exact keeps_unexpected []
    | cons token tokens =>
      obtain ⟨lexeme, line⟩ := token
      -- Every token but an integer that is too large is taken by a step of its own.
      have htake : lexeme.Fits → KeepsFrom good (⟨lexeme, line⟩ :: tokens) (skip 1)
          (fun _ => good lexeme) := keepsFrom_skip rfl
      cases lexeme with
      | atom name => exact (htake fun _ => nofun).bind fun _ _ => keeps_pure .atom
      | var name => exact (htake fun _ => nofun).bind fun _ _ => keeps_pure .var
      | integer value =>
        exact (htake fun _ => nofun).bind fun _ hgood => keeps_pure (.integer hgood)
      | float value => exact (htake fun _ => nofun).bind fun _ _ => keeps_pure .float
      | bigInteger text => exact keeps_fail _
      | char value => exact (htake fun _ => nofun).bind fun _ _ => keeps_pure .char
      | string text => exact keeps_strings.bind (fun _ _ => keeps_pure .string) _
      | punct mark =>
        have hskip := htake fun _ => nofun
        cases mark with
        | openParen =>
          exact hskip.bind fun _ _ => h.bind fun inner hinner =>
            keeps_expectPunct.bind fun _ _ => keeps_pure hinner
        | openBracket => exact hskip.bind fun _ _ => keeps_listRest hlimit h
        | openBrace =>
          exact hskip.bind fun _ _ => (keeps_delimited h limit).bind fun items hitems =>
            keeps_pure (.tuple hitems)
        | openBinary => exact hskip.bind fun _ _ => keeps_binaryRest hlimit ih
        | hash =>
          exact hskip.bind fun _ _ => keeps_hashRest h (fun fields hfields => .map hfields)
            (fun name field => .recordIndex) (fun name fields hfields => .recordNew hfields)
        | _ => exact keeps_unexpected _
      | keyword word =>
        have hskip := htake fun _ => nofun
        cases word with
        | begin_ =>
          refine hskip.bind fun _ _ => (keeps_exprs hlimit h).bind fun body hbody => ?_
          exact keeps_expectKeyword.bind fun _ _ => keeps_pure (.block hbody.2 hbody.1)
        | case_ =>
          refine hskip.bind fun _ _ => h.bind fun subject hsubject => ?_
          refine keeps_expectKeyword.bind fun _ _ => ?_
          have hclause := keeps_caseClause hlimit h
          refine (keeps_clausesToEnd hlimit hclause).bind fun clauses hclauses => ?_
          refine keeps_pure (.case_ hsubject hclauses.2 ?_ ?_ ?_)
          · exact fun clause hmem => (hclauses.1 clause hmem).1.1
          · exact fun clause hmem => (hclauses.1 clause hmem).2
          · exact fun clause hmem => (hclauses.1 clause hmem).1.2
        | if_ =>
          refine hskip.bind fun _ _ => ?_
          have hclause := keeps_ifClause hlimit h
          refine (keeps_clausesToEnd hlimit hclause).bind fun clauses hclauses => ?_
          refine keeps_pure (.if_ hclauses.2 ?_ ?_ ?_)
          · exact fun clause hmem => (hclauses.1 clause hmem).1.1
          · exact fun clause hmem => (hclauses.1 clause hmem).2
          · exact fun clause hmem => (hclauses.1 clause hmem).1.2
        | fun_ => exact hskip.bind fun _ _ => keeps_funRest hlimit h
        | receive | try_ | cond | let_ => exact keeps_fail _
        | _ => exact keeps_unexpected _
      | dot => exact keeps_unexpected _

/-! ## Levels -/

theorem keeps_postfixFrom (hlimit : 0 < limit) (h : Keeps good nested (Shaped good)) (rounds : Nat)
    {expr : Expr} (hexpr : expr.Shaped good) :
    Keeps good (postfixFrom limit nested rounds expr) (Shaped good) := by
  induction rounds generalizing expr with
  | zero => exact keeps_pure hexpr
  | succ rounds ih =>
    refine keeps_eatPunct.bind fun isRemote _ => ?_
    cases isRemote with
    | true =>
      refine (keeps_primaryWithin hlimit h limit).bind fun function hfunction => ?_
      exact (keeps_arguments h).bind fun args hargs => ih (.remoteCall hexpr hfunction hargs)
    | false =>
      refine keeps_atPunct.bind fun isCall _ => ?_
      cases isCall with
      | true => exact (keeps_arguments h).bind fun args hargs => ih (.call hexpr hargs)
      | false =>
        refine keeps_eatPunct.bind fun isAccess _ => ?_
        cases isAccess with
        | true =>
          refine (keeps_hashRest h ?_ ?_ ?_).bind fun access haccess => ih haccess
          · exact fun fields hfields => .mapUpdate hexpr hfields
          · exact fun name field => .recordField hexpr
          · exact fun name fields hfields => .recordUpdate hexpr hfields
        | false => exact keeps_pure hexpr

theorem keeps_postfixLevel (hlimit : 0 < limit) (h : Keeps good nested (Shaped good)) :
    Keeps good (postfixLevel limit nested) (Shaped good) :=
  (keeps_primaryWithin hlimit h limit).bind fun _ hexpr => keeps_postfixFrom hlimit h limit hexpr

variable {operand : Parser Expr}

theorem keeps_prefixFrom (h : Keeps good operand (Shaped good)) (rounds : Nat) :
    Keeps good (prefixFrom operand rounds) (Shaped good) := by
  induction rounds with
  | zero => exact h
  | succ rounds ih =>
    refine (keeps_take? fun _ => rfl).bind fun op _ => ?_
    cases op with
    | some op => exact ih.map fun value hvalue => shaped_signed op hvalue
    | none => exact h

theorem keeps_leftFrom {operator? : Lexeme → Option BinaryOp} (hfits : SelectsFitting operator?)
    (h : Keeps good operand (Shaped good)) (rounds : Nat) {left : Expr}
    (hleft : left.Shaped good) :
    Keeps good (leftFrom operator? operand rounds left) (Shaped good) := by
  induction rounds generalizing left with
  | zero => exact keeps_pure hleft
  | succ rounds ih =>
    refine (keeps_take? hfits).bind fun op _ => ?_
    cases op with
    | some op => exact h.bind fun right hright => ih (.binaryOp hleft hright)
    | none => exact keeps_pure hleft

theorem keeps_leftLevel {operator? : Lexeme → Option BinaryOp} (hfits : SelectsFitting operator?)
    (h : Keeps good operand (Shaped good)) :
    Keeps good (leftLevel limit operator? operand) (Shaped good) :=
  h.bind fun _ hleft => keeps_leftFrom hfits h limit hleft

theorem keeps_rightLevel {operator? : Lexeme → Option (Expr → Expr → Expr)}
    (hfits : SelectsFitting operator?)
    (hoperator : ∀ lexeme combine, operator? lexeme = some combine → ∀ left right : Expr,
      left.Shaped good → right.Shaped good → (combine left right).Shaped good)
    (h : Keeps good operand (Shaped good)) (rounds : Nat) :
    Keeps good (rightLevel operator? operand rounds) (Shaped good) := by
  induction rounds with
  | zero => exact h
  | succ rounds ih =>
    refine h.bind fun left hleft => (keeps_take? hfits).bind fun combine hcombine => ?_
    cases combine with
    | none => exact keeps_pure hleft
    | some combine =>
      obtain ⟨lexeme, _, hselect⟩ := hcombine combine rfl
      exact ih.map fun right hright => hoperator lexeme combine hselect left right hleft hright

theorem keeps_comparisonLevel (h : Keeps good operand (Shaped good)) :
    Keeps good (comparisonLevel operand) (Shaped good) := by
  refine h.bind fun left hleft => (keeps_take? fun _ => rfl).bind fun op _ => ?_
  cases op with
  | some op => exact h.map fun right hright => .binaryOp hleft hright
  | none => exact keeps_pure hleft

theorem keeps_andalsoLevel (hlimit : 0 < limit) (h : Keeps good nested (Shaped good)) :
    Keeps good (andalsoLevel limit nested) (Shaped good) := by
  have hprefix : Keeps good (prefixLevel limit nested) (Shaped good) :=
    keeps_prefixFrom (keeps_postfixLevel hlimit h) limit
  have hadditive : Keeps good (additiveLevel limit nested) (Shaped good) :=
    keeps_leftLevel (fun _ => rfl) (keeps_leftLevel (fun _ => rfl) hprefix)
  refine keeps_rightLevel (fun _ => rfl) ?_
    (keeps_comparisonLevel (keeps_rightLevel (fun _ => rfl) ?_ hadditive limit)) limit
  · intro lexeme combine hselect left right hleft hright
    unfold andalsoOp? at hselect
    split at hselect <;> cases hselect
    exact .binaryOp hleft hright
  · intro lexeme combine hselect left right hleft hright
    unfold listOp? at hselect
    split at hselect <;> cases hselect <;> exact .binaryOp hleft hright

theorem keeps_matchLevel (hlimit : 0 < limit) (h : Keeps good nested (Shaped good)) :
    Keeps good (matchLevel limit nested) (Shaped good) := by
  refine keeps_rightLevel (fun _ => rfl) ?_
    (keeps_rightLevel (fun _ => rfl) ?_ (keeps_andalsoLevel hlimit h) limit) limit
  · intro lexeme combine hselect left right hleft hright
    unfold matchOp? at hselect
    split at hselect <;> cases hselect
    · exact .match_ hleft hright
    · exact .binaryOp hleft hright
  · intro lexeme combine hselect left right hleft hright
    unfold orelseOp? at hselect
    split at hselect <;> cases hselect
    exact .binaryOp hleft hright

theorem keeps_exprWithin (limit : Nat) : Keeps good (exprWithin limit) (Shaped good) := by
  induction limit with
  | zero => exact keeps_unexpected
  | succ limit ih =>
    refine keeps_eatKeyword.bind fun isCatch _ => ?_
    cases isCatch with
    | true => exact ih.bind fun body hbody => keeps_pure (.catch_ hbody)
    | false => exact keeps_matchLevel (Nat.succ_pos limit) ih

theorem keeps_singleExpr (hlimit : 0 < limit) :
    Keeps good (singleExpr limit) (Shaped good) := by
  refine (keeps_exprs hlimit (keeps_exprWithin limit)).bind fun found hfound => ?_
  refine keeps_expectEnd.bind fun _ _ => ?_
  split
  case h_1 expr => exact keeps_pure (hfound.1 expr List.mem_cons_self)
  case h_2 => exact keeps_fail

end Parser

/-- Every expression that good tokens hold has its shape, and the numbers in it are good. -/
theorem Expr.shaped_of_ofTokens {good : Lexeme → Prop} {tokens : List Token} {expr : Expr}
    (hgood : ∀ token ∈ tokens, good token.lexeme) (h : ofTokens tokens = .ok expr) :
    expr.Shaped good := by
  obtain ⟨rest, hok⟩ := Parser.ok_of_parse h
  exact (Parser.keeps_singleExpr (Nat.succ_pos _) tokens hgood hok).1

end HeaderForms
