-- SUMMARY: The clauses, guards and bodies of what the grammar gives are complete.
import HeaderForms.Proofs.Declaration.Failure

/-!
# Clauses of the grammar

Trees are plain data, and nothing in their types keeps a clause from having no body or a function
from having no clause. The grammar gives no such trees: what it gives is complete at every depth,
and the conversion to forms relies on it without looking.
-/

namespace HeaderForms

/-! ## Guards -/

namespace Expr

theorem length_of_forms {exprs : List Expr} {found : List Form} (h : forms exprs = .ok found) :
    exprs.length = found.length := by
  induction exprs generalizing found with
  | nil =>
    cases h
    rfl
  | cons expr exprs ih =>
    obtain ⟨spine, -, hrest⟩ := bind_eq_ok.1 h
    obtain ⟨forms, hforms, hpure⟩ := bind_eq_ok.1 hrest
    cases hpure
    rw [List.length_cons, List.length_cons, ih hforms]

/-- Each alternative of a guard keeps its tests. -/
theorem lengths_of_guardForms {guards : List (List Expr)} {alternatives : List (List Form)}
    (h : guardForms guards = .ok alternatives) :
    guards.map List.length = alternatives.map List.length := by
  induction guards generalizing alternatives with
  | nil =>
    cases h
    rfl
  | cons guard guards ih =>
    obtain ⟨tests, htests, hrest⟩ := bind_eq_ok.1 h
    obtain ⟨others, hothers, hpure⟩ := bind_eq_ok.1 hrest
    cases hpure
    rw [List.map_cons, List.map_cons, length_of_forms htests, ih hothers]

end Expr

/-- The guards of the clause are converted to alternatives of which none is empty, and to one at
least where the clause has guards. -/
def Clause.Tested (clause : Clause) : Prop :=
  ∀ alternatives, Expr.guardForms clause.guards = .ok alternatives →
    (clause.guards ≠ [] → alternatives ≠ []) ∧ ∀ tests ∈ alternatives, tests ≠ []

theorem Clause.Complete.tested {clause : Clause} (h : clause.Complete) : clause.Tested := by
  intro alternatives halternatives
  have hlengths := Expr.lengths_of_guardForms halternatives
  constructor
  · rintro hguards rfl
    exact hguards (List.map_eq_nil_iff.1 hlengths)
  · rintro _ hmem rfl
    have hzero : 0 ∈ clause.guards.map List.length := hlengths ▸ List.mem_map.2 ⟨[], hmem, rfl⟩
    obtain ⟨guard, hguard, hlength⟩ := List.mem_map.1 hzero
    exact h.guards guard hguard (List.length_eq_zero_iff.1 hlength)

/-- The guards behind a `when` are there. -/
theorem Parser.guards_ne_nil_of_clauseRest {limit line : Nat} {nested : Parser Expr}
    {patterns : List Expr} {tokens rest : List Token} {clause : Clause} (hlimit : 0 < limit)
    (h : clauseRest limit nested patterns (⟨.keyword .when, line⟩ :: tokens) = .ok (clause, rest)) :
    clause.guards ≠ [] := by
  obtain ⟨guarded, behind, heat, hguarded⟩ := bind_eq_ok.1 h
  cases guarded with
  | false => cases heat
  | true =>
    obtain ⟨guards, _, hguards, hrest⟩ := bind_eq_ok.1 hguarded
    obtain ⟨_, _, -, hbody⟩ := bind_eq_ok.1 hrest
    obtain ⟨body, _, -, hpure⟩ := bind_eq_ok.1 hbody
    cases hpure
    exact List.ne_nil_of_length_pos (length_lt_of_separatedFrom hlimit hguards)

/-! ## Completeness -/

namespace Expr

/-- The clauses of the expression itself. -/
def clauses : Expr → List Clause
  | .case_ _ clauses | .if_ clauses | .fun_ clauses => clauses
  | _ => []

/-- The clauses, the guards and the blocks anywhere in the expression are complete, and the
conversion finds no guard without a test. -/
structure Complete (expr : Expr) : Prop where
  nodes : ∀ inner : Expr, inner.Within expr → inner.ClausesComplete
  tested : ∀ inner : Expr, inner.Within expr → ∀ clause ∈ inner.clauses, clause.Tested

theorem ClausesComplete.complete {expr : Expr} (h : expr.ClausesComplete) :
    ∀ clause ∈ expr.clauses, clause.Complete := by
  cases expr with
  | case_ subject clauses => exact fun clause hmem => (h.2 clause hmem).1
  | if_ clauses => exact fun clause hmem => (h.2 clause hmem).1
  | fun_ clauses => exact h.2
  | _ => exact List.forall_mem_nil _

end Expr

/-- The clauses of a function and the signatures of a specification are there, and they have as many
arguments as the declaration says. -/
def Declaration.ArityKept : Declaration → Prop
  | .function _ arity clauses =>
    clauses ≠ [] ∧
      ∀ clause ∈ clauses, clause.Complete ∧ clause.Tested ∧ clause.patterns.length = arity
  | .spec _ arity signatures =>
    signatures ≠ [] ∧ ∀ signature ∈ signatures, signature.args.length = arity
  | _ => True

variable {good : Lexeme → Prop} {expr : Expr} {declaration : Declaration}

theorem Expr.Shaped.complete (h : expr.Shaped good) : expr.Complete := by
  have hnodes : ∀ inner : Expr, inner.Within expr → inner.ClausesComplete :=
    fun inner hinner => (h.forall_within inner hinner).clauses
  exact ⟨hnodes, fun inner hinner clause hmem => ((hnodes inner hinner).complete clause hmem).tested⟩

theorem Declaration.Shaped.arityKept (h : declaration.Shaped good) : declaration.ArityKept := by
  cases h with
  | function hne harity hclauses =>
    refine ⟨hne, fun clause hmem => ?_⟩
    have hcomplete : clause.Complete := (hclauses clause hmem).1
    exact ⟨hcomplete, hcomplete.tested, harity clause hmem⟩
  | spec hne harity _ => exact ⟨hne, harity⟩
  | _ => trivial

namespace Parser

/-- Whatever the grammar gives is complete: the clauses of every construct are there, each with a
body and with the patterns that the construct wants, and neither a guard nor a block is empty. So
the conversion meets no `case` clause with another number of patterns than one and no empty test. -/
theorem complete_of_ofTokens :
    (∀ tokens expr, Expr.ofTokens tokens = .ok expr →
      expr.Complete ∧ ∀ count, expr.toForm ≠ .error (.casePatterns count)) ∧
    (∀ tokens declaration, Declaration.ofTokens tokens = .ok declaration →
      declaration.ArityKept ∧ (∀ expr ∈ declaration.exprs, expr.Complete) ∧
      ∀ typedRecords head count, declaration.outcome typedRecords ≠
        .dropped (.declaration head (.conversion (.casePatterns count)))) ∧
    ∀ limit nested patterns line tokens clause rest, 0 < limit →
      clauseRest limit nested patterns (⟨.keyword .when, line⟩ :: tokens) = .ok (clause, rest) →
      clause.guards ≠ [] := by
  refine ⟨fun tokens expr h => ?_, fun tokens declaration h => ?_, ?_⟩
  · have hshaped : expr.Shaped fun _ => True := Expr.shaped_of_ofTokens (fun _ _ => trivial) h
    exact ⟨hshaped.complete, fun count herror => nomatch hshaped.failsWith_toForm _ herror⟩
  · obtain hshaped | ⟨head, reason, rfl⟩ :=
      @Declaration.shaped_or_unsupported (fun _ => True) _ _ (fun _ _ => trivial) h
    · exact ⟨hshaped.arityKept, fun expr hmem => (hshaped.exprs expr hmem).complete,
        fun _ _ _ => hshaped.outcome_ne_casePatterns⟩
    · exact ⟨trivial, List.forall_mem_nil _, fun _ _ _ => nofun⟩
  · exact fun _ _ _ _ _ _ _ hlimit h => guards_ne_nil_of_clauseRest hlimit h

/-- The function `f(X) -> case X of A when A; B, C -> if A -> X end end`. -/
theorem complete_of_ofTokens_sample :
    let inner := Expr.if_ [.mk [] [[.var "A"]] [.var "X"]]
    let clause := Clause.mk [.var "A"] [[.var "A"], [.var "B", .var "C"]] [inner]
    let expr := Expr.case_ (.var "X") [clause]
    let behind := ([.var "A", .punct .semicolon, .var "B", .punct .comma, .var "C", .punct .arrow,
      .keyword .if_, .var "A", .punct .arrow, .var "X", .keyword .end_, .keyword .end_,
      .dot] : List Lexeme).map (Token.mk · 1)
    let tokens := ([.keyword .case_, .var "X", .keyword .of_, .var "A",
      .keyword .when] : List Lexeme).map (Token.mk · 1) ++ behind
    let head := ([.atom "f", .punct .openParen, .var "X", .punct .closeParen,
      .punct .arrow] : List Lexeme).map (Token.mk · 1)
    let function := Declaration.function "f" 1 [.mk [.var "X"] [] [expr]]
    Expr.ofTokens tokens = .ok expr ∧ Declaration.ofTokens (head ++ tokens) = .ok function ∧
      inner.Within expr ∧ inner.ClausesComplete ∧ function.ArityKept ∧ clause.guards ≠ [] := by
  intro inner clause expr behind tokens head function
  obtain ⟨hexprs, hdeclarations, hguards⟩ := complete_of_ofTokens
  have hexpr : Expr.ofTokens tokens = .ok expr := by rfl
  have hfunction : Declaration.ofTokens (head ++ tokens) = .ok function := by rfl
  have hrest : clauseRest 20 (exprWithin 20) [.var "A"] (⟨.keyword .when, 1⟩ :: behind) =
      .ok (clause, behind.drop 11) := by rfl
  have hwithin : inner.Within expr := .part (List.mem_of_getElem? (i := 5) rfl) .refl
  exact ⟨hexpr, hfunction, hwithin, (hexprs _ _ hexpr).1.nodes inner hwithin,
    (hdeclarations _ _ hfunction).1, hguards 20 _ _ 1 _ _ _ (by decide) hrest⟩

end Parser

end HeaderForms
