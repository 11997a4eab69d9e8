-- SUMMARY: The nodes of an expression, and what the grammar gives each of them.
import HeaderForms.Proofs.Expr.Shape

/-!
# Nodes of expressions

An expression is made of parts, and its nodes are the expression itself and those anywhere inside
it. What the grammar gives a node is told without its parts: a construct with clauses has at least
one of them, with the patterns that it wants and with no guard and no body that is empty, and the
numbers in the node are good.

A signed value in a binary is not of the shape of an expression, since a sign stays beside a number
there, and yet its nodes are like those of any other expression. So properties of nodes are proved
by the induction on shapes below and not by shapes that are passed down.
-/

namespace HeaderForms

/-! ## Parts -/

/-- The expressions in an element of a binary: its value, sign and all, and its size. -/
def BinElement.operands : BinElement → List Expr
  | .mk value size _ => value :: size.toList

theorem Clause.forall_mem_parts {patterns body : List Expr} {guards : List (List Expr)}
    {P : Expr → Prop} :
    (∀ part ∈ (Clause.mk patterns guards body).parts, P part) ↔
      (∀ pattern ∈ patterns, P pattern) ∧ (∀ test ∈ guards.flatten, P test) ∧
        ∀ expr ∈ body, P expr := by
  rw [← and_assoc, ← List.forall_mem_append, ← List.forall_mem_append]
  rfl

namespace Expr

/-- The expressions that an expression is made of. -/
def parts : Expr → List Expr
  | .cons head tail => [head, tail]
  | .tuple items => items
  | .binary elements => elements.flatMap BinElement.operands
  | .map fields => fields.flatMap MapField.parts
  | .mapUpdate base fields => base :: fields.flatMap MapField.parts
  | .recordNew _ fields => fields.map FieldValue.value
  | .recordUpdate record _ fields => record :: fields.map FieldValue.value
  | .recordField record _ _ => [record]
  | .binaryOp _ left right => [left, right]
  | .unaryOp _ operand => [operand]
  | .match_ pattern value => [pattern, value]
  | .call function args => function :: args
  | .remoteCall module function args => module :: function :: args
  | .block body => body
  | .case_ subject clauses => subject :: clauses.flatMap Clause.parts
  | .if_ clauses => clauses.flatMap Clause.parts
  | .fun_ clauses => clauses.flatMap Clause.parts
  | .catch_ body => [body]
  | .comprehension body qualifiers => body :: qualifiers.flatMap Qualifier.parts
  | _ => []

/-- The expression itself, or one anywhere inside it. -/
inductive Within (inner : Expr) : Expr → Prop where
  | refl : Within inner inner
  | part {part outer : Expr} (hpart : part ∈ outer.parts) (h : Within inner part) :
    Within inner outer

theorem forall_within_iff {P : Expr → Prop} {expr : Expr} :
    (∀ inner : Expr, inner.Within expr → P inner) ↔
      P expr ∧ ∀ part ∈ expr.parts, ∀ inner : Expr, inner.Within part → P inner := by
  constructor
  · exact fun h => ⟨h expr .refl, fun part hpart inner hinner => h inner (.part hpart hinner)⟩
  · rintro ⟨hself, hparts⟩ inner hinner
    cases hinner with
    | refl => exact hself
    | part hpart hinner => exact hparts _ hpart inner hinner

/-! ## Nodes -/

/-- The clauses of the expression itself are there, complete and with the patterns that their
construct wants, and a block has a body. -/
def ClausesComplete : Expr → Prop
  | .block body => body ≠ []
  | .case_ _ clauses =>
    clauses ≠ [] ∧ ∀ clause ∈ clauses, clause.Complete ∧ ∃ pattern, clause.patterns = [pattern]
  | .if_ clauses =>
    clauses ≠ [] ∧ ∀ clause ∈ clauses, clause.Complete ∧ clause.patterns = [] ∧ clause.guards ≠ []
  | .fun_ clauses => clauses ≠ [] ∧ ∀ clause ∈ clauses, clause.Complete
  | _ => True

/-- The integers of the expression itself. -/
def numbers : Expr → List Int
  | .integer value => [value]
  | .binary elements => elements.flatMap BinElement.units
  | .funRef _ _ arity => [(arity : Int)]
  | _ => []

/-- What the grammar gives the expression itself. -/
structure NodeShaped (good : Lexeme → Prop) (expr : Expr) : Prop where
  clauses : expr.ClausesComplete
  numbers : ∀ number ∈ expr.numbers, good (.integer number.natAbs)

variable {good : Lexeme → Prop} {expr : Expr}

theorem nodeShaped_of_trivial (hclauses : expr.ClausesComplete) (hnumbers : expr.numbers = []) :
    expr.NodeShaped good :=
  ⟨hclauses, hnumbers ▸ List.forall_mem_nil _⟩

/-- What passes from the parts of a node to the node holds of every expression of the grammar. -/
theorem Shaped.induction_nodes {P : Expr → Prop}
    (hnode : ∀ expr : Expr, expr.NodeShaped good → (∀ part ∈ expr.parts, P part) → P expr)
    (h : expr.Shaped good) : P expr := by
  have hplain : ∀ expr : Expr, expr.ClausesComplete → expr.numbers = [] →
      (∀ part ∈ expr.parts, P part) → P expr :=
    fun expr hclauses hnumbers => hnode expr (nodeShaped_of_trivial hclauses hnumbers)
  -- A value with a sign has the property if the value behind the sign does.
  have hsigned : ∀ value : Expr, P (value.sign?.elim value (·.2)) → P value := by
    intro value hvalue
    unfold sign? at hvalue
    split at hvalue
    case h_1 | h_2 => exact hplain _ trivial rfl (List.forall_mem_singleton.2 hvalue)
    case h_3 => exact hvalue
  induction h with
  | integer hgood =>
    exact hnode _ ⟨trivial, List.forall_mem_singleton.2 hgood⟩ (List.forall_mem_nil _)
  | funRef hgood =>
    exact hnode _ ⟨trivial, List.forall_mem_singleton.2 hgood⟩ (List.forall_mem_nil _)
  | atom | var | float | char | string | nil | recordIndex =>
    exact hplain _ trivial rfl (List.forall_mem_nil _)
  | cons _ _ ihleft ihright | binaryOp _ _ ihleft ihright | match_ _ _ ihleft ihright =>
    exact hplain _ trivial rfl
      (List.forall_mem_cons.2 ⟨ihleft, List.forall_mem_singleton.2 ihright⟩)
  | tuple _ ih => exact hplain _ trivial rfl ih
  | block hne _ ih => exact hplain _ hne rfl ih
  | binary _ hunits _ ih =>
    refine hnode _ ⟨trivial, List.forall_mem_flatMap.2 hunits⟩
      (List.forall_mem_flatMap.2 fun element hmem => ?_)
    obtain ⟨value, size, specs⟩ := element
    obtain ⟨ihvalue, ihsize⟩ := List.forall_mem_cons.1 (ih _ hmem)
    exact List.forall_mem_cons.2 ⟨hsigned value ihvalue, ihsize⟩
  | map _ ih => exact hplain _ trivial rfl (List.forall_mem_flatMap.2 ih)
  | mapUpdate _ _ ihbase ih =>
    exact hplain _ trivial rfl (List.forall_mem_cons.2 ⟨ihbase, List.forall_mem_flatMap.2 ih⟩)
  | recordNew _ ih => exact hplain _ trivial rfl (List.forall_mem_map.2 ih)
  | recordUpdate _ _ ihrecord ih =>
    exact hplain _ trivial rfl (List.forall_mem_cons.2 ⟨ihrecord, List.forall_mem_map.2 ih⟩)
  | recordField _ ih | unaryOp _ _ ih | catch_ _ ih =>
    exact hplain _ trivial rfl (List.forall_mem_singleton.2 ih)
  | call _ _ ihfunction ihargs =>
    exact hplain _ trivial rfl (List.forall_mem_cons.2 ⟨ihfunction, ihargs⟩)
  | remoteCall _ _ _ ihmodule ihfunction ihargs =>
    exact hplain _ trivial rfl
      (List.forall_mem_cons.2 ⟨ihmodule, List.forall_mem_cons.2 ⟨ihfunction, ihargs⟩⟩)
  | case_ _ hne hcomplete hpatterns _ ihsubject ih =>
    refine hplain _ ⟨hne, fun clause hmem => ⟨hcomplete clause hmem, hpatterns clause hmem⟩⟩ rfl ?_
    exact List.forall_mem_cons.2 ⟨ihsubject, List.forall_mem_flatMap.2 ih⟩
  | if_ hne hcomplete hguards _ ih =>
    exact hplain _ ⟨hne, fun clause hmem => ⟨hcomplete clause hmem, hguards clause hmem⟩⟩ rfl
      (List.forall_mem_flatMap.2 ih)
  | fun_ hne hcomplete _ ih =>
    exact hplain _ ⟨hne, hcomplete⟩ rfl (List.forall_mem_flatMap.2 ih)
  | comprehension _ _ ihbody ih =>
    exact hplain _ trivial rfl (List.forall_mem_cons.2 ⟨ihbody, List.forall_mem_flatMap.2 ih⟩)

/-- Every node of an expression of the grammar is one that the grammar gives. -/
theorem Shaped.forall_within (h : expr.Shaped good) :
    ∀ inner : Expr, inner.Within expr → inner.NodeShaped good :=
  h.induction_nodes fun _ hself hparts => forall_within_iff.2 ⟨hself, hparts⟩

end Expr

end HeaderForms
