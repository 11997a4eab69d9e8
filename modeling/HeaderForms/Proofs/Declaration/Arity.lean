-- SUMMARY: Which arities the clauses of one function, one specification and one fun have.
import HeaderForms.Proofs.Declaration.Clauses
import HeaderForms.Proofs.Expr.RoundTrip

/-!
# Arities of clauses

The clauses of a function agree in their number of patterns, and so do the signatures of a
specification in their arguments: both are compared behind the last of them. The clauses of a `fun`
are read by the same grammar and are not compared. So every list of arities that is not empty is
that of the clauses of some `fun`, and whether they agree is left to whoever takes the tree.
-/

namespace HeaderForms

open HeaderForms.Parser HeaderForms.Render
open HeaderForms.Expr (reads_expectEnd)

/-! ## Funs of any arities -/

/-- The clause `(X, ..., X) -> ok` with so many patterns. -/
def Clause.ofArity (arity : Nat) : Clause :=
  .mk (List.replicate arity (.var "X")) [] [.atom "ok"]

theorem Clause.length_ofArity (arity : Nat) : (ofArity arity).patterns.length = arity :=
  List.length_replicate

namespace Expr

/-- The `fun` whose clauses have these arities. -/
def ofArities (arities : List Nat) : Expr :=
  .fun_ (arities.map Clause.ofArity)

theorem shaped_ofArities {good : Lexeme → Prop} {arities : List Nat} (hne : arities ≠ []) :
    (ofArities arities).Shaped good := by
  refine .fun_ (by simpa using hne) ?_ ?_
  · refine List.forall_mem_map.2 fun arity _ => ⟨List.forall_mem_nil _, ?_⟩
    exact List.cons_ne_nil _ _
  · refine List.forall_mem_map.2 fun arity _ => Clause.forall_mem_parts.2 ⟨?_, ?_, ?_⟩
    · exact fun pattern hmem => List.eq_of_mem_replicate hmem ▸ .var
    · exact List.forall_mem_nil _
    · exact List.forall_mem_singleton.2 .atom

theorem readable_ofArities {arities : List Nat} (hne : arities ≠ []) :
    Readable (ofArities arities) := by
  have hshaped : (ofArities arities).Shaped fun _ => True := shaped_ofArities hne
  exact (readable_and_continues hshaped).1

end Expr

/-! ## Attributes that hold an expression -/

theorem lexemes_onLine (lexemes : List Lexeme) (line : Nat) :
    (lexemes.map (Token.mk · line)).map (·.lexeme) = lexemes := by
  rw [List.map_map]
  exact List.map_id lexemes

/-- The lexemes of the attribute `-x(expr).` -/
def Expr.asAttribute (expr : Expr) : List Lexeme :=
  .punct .minus :: .atom "x" :: (.punct .openParen :: (expr.render ++ [.punct .closeParen]) ++ [.dot])

namespace Parser

variable {limit : Nat} {expr : Expr}

theorem reads_attributeValue (h : Expr.Readable expr) (hlimit : expr.render.length ≤ limit) :
    Reads (attributeValue limit) (.punct .openParen :: (expr.render ++ [.punct .closeParen]))
      (fun _ => True) expr := by
  refine leads_eat ((h.reads_nested hlimit).bind (leads_expectPunct Reads.pure) fun _ _ => ?_)
  exact follows_of_joins?_eq_none rfl

theorem reads_attribute (h : Expr.Readable expr) (hlimit : expr.render.length ≤ limit) :
    Reads (declaration limit) expr.asAttribute (fun ahead => ahead = none) (.attribute "x" expr) := by
  have hattribute : Reads (attributeDecl limit)
      (.atom "x" :: .punct .openParen :: (expr.render ++ [.punct .closeParen])) (fun _ => True)
      (.attribute "x" expr) := by
    have hmay : mayBeWrapped "x" = false := by decide
    have hbody : Reads (attributeBody limit "x" >>= pure)
        (.punct .openParen :: (expr.render ++ [.punct .closeParen])) (fun _ => True)
        (.attribute "x" expr) :=
      (reads_attributeValue h hlimit).map.bind_pure
    refine leads_takeAny rfl ?_
    rw [hmay]
    exact hbody
  exact leads_eat (hattribute.bind (reads_expectEnd.bind Reads.pure fun _ hahead => hahead)
    fun _ _ => trivial)

end Parser

theorem Declaration.ofTokens_asAttribute {expr : Expr} (h : Expr.Readable expr)
    {printed : List Token} (hprinted : printed.map (·.lexeme) = expr.asAttribute) :
    ofTokens printed = .ok (.attribute "x" expr) := by
  have hlength : expr.render.length ≤ printed.length + 1 := by
    rw [← List.length_map (fun token : Token => token.lexeme), hprinted]
    simp only [Expr.asAttribute, List.length_cons, List.length_append]
    omega
  have hread := @reads_attribute (printed.length + 1) expr h hlength printed [] hprinted rfl
  rw [List.append_nil] at hread
  rw [ofTokens, parse, hread]
  rfl

/-! ## Which arities there are -/

/-- The arities of the clauses of a `fun` in the expression. -/
def Expr.HoldsFun (expr : Expr) (arities : List Nat) : Prop :=
  ∃ clauses : List Clause, (Expr.fun_ clauses).Within expr ∧
    clauses.map (·.patterns.length) = arities

theorem Expr.holdsFun_ofArities (arities : List Nat) : (ofArities arities).HoldsFun arities := by
  refine ⟨arities.map Clause.ofArity, .refl, ?_⟩
  rw [List.map_map]
  exact List.map_id'' Clause.length_ofArity arities

theorem Expr.HoldsFun.ne_nil {good : Lexeme → Prop} {expr : Expr} {arities : List Nat}
    (hshaped : expr.Shaped good) (h : expr.HoldsFun arities) : arities ≠ [] := by
  obtain ⟨clauses, hwithin, rfl⟩ := h
  have hcomplete : clauses ≠ [] := (hshaped.forall_within _ hwithin).clauses.1
  simpa using hcomplete

/-- The clauses of one construct have the same number of patterns. -/
def SameArity (arities : List Nat) : Prop :=
  ∃ arity, ∀ other ∈ arities, other = arity

namespace Parser

/-- The clauses of a `fun` have any arities, at the top of what was read or inside it. So it is left
to the text that they agree: nothing is refused where they do not. The clauses of a function and
the signatures of a specification have the arity of their declaration. -/
theorem arities_of_clauses (arities : List Nat) :
    (arities ≠ [] ↔
      ∃ tokens expr, Expr.ofTokens tokens = .ok expr ∧ expr.HoldsFun arities) ∧
    (arities ≠ [] ↔
      ∃ tokens declaration, Declaration.ofTokens tokens = .ok declaration ∧
        ∃ expr ∈ declaration.exprs, expr.HoldsFun arities) ∧
    ((∀ tokens expr, Expr.ofTokens tokens = .ok expr → expr.HoldsFun arities →
        SameArity arities) ∧
      (∀ tokens declaration, Declaration.ofTokens tokens = .ok declaration →
        ∀ expr ∈ declaration.exprs, expr.HoldsFun arities → SameArity arities) ↔
      SameArity arities) ∧
    (∀ tokens name arity clauses, Declaration.ofTokens tokens = .ok (.function name arity clauses) →
      ∀ clause ∈ clauses, clause.patterns.length = arity) ∧
    ∀ tokens name arity signatures,
      Declaration.ofTokens tokens = .ok (.spec name arity signatures) →
      ∀ signature ∈ signatures, signature.args.length = arity := by
  have hexprs : arities ≠ [] →
      ∃ tokens expr, Expr.ofTokens tokens = .ok expr ∧ expr.HoldsFun arities := by
    intro hne
    have hread := Expr.ofTokens_of_readable (Expr.readable_ofArities hne) (lexemes_onLine _ 1)
    exact ⟨_, _, hread, Expr.holdsFun_ofArities arities⟩
  refine ⟨⟨hexprs, ?_⟩, ⟨fun hne => ?_, ?_⟩, ⟨fun ⟨hagree, _⟩ => ?_, fun hsame => ?_⟩, ?_, ?_⟩
  · rintro ⟨tokens, expr, hread, hholds⟩
    have hshaped : expr.Shaped fun _ => True := Expr.shaped_of_ofTokens (fun _ _ => trivial) hread
    exact hholds.ne_nil hshaped
  · have hread :=
      Declaration.ofTokens_asAttribute (Expr.readable_ofArities hne) (lexemes_onLine _ 1)
    exact ⟨_, _, hread, _, List.mem_singleton_self _, Expr.holdsFun_ofArities arities⟩
  · rintro ⟨tokens, declaration, hread, expr, hmem, hholds⟩
    exact hholds.ne_nil ((Declaration.given_of_ofTokens hread).shaped expr hmem)
  · by_cases hne : arities = []
    · subst hne
      exact ⟨0, List.forall_mem_nil _⟩
    · obtain ⟨tokens, expr, hread, hholds⟩ := hexprs hne
      exact hagree tokens expr hread hholds
  · exact ⟨fun _ _ _ _ => hsame, fun _ _ _ _ _ _ => hsame⟩
  · intro tokens name arity clauses hread
    obtain hshaped | ⟨_, _, hunsupported⟩ :=
      @Declaration.shaped_or_unsupported (fun _ => True) _ _ (fun _ _ => trivial) hread
    · exact fun clause hmem => (hshaped.arityKept.2 clause hmem).2.2
    · cases hunsupported
  · intro tokens name arity signatures hread
    obtain hshaped | ⟨_, _, hunsupported⟩ :=
      @Declaration.shaped_or_unsupported (fun _ => True) _ _ (fun _ _ => trivial) hread
    · exact hshaped.arityKept.2
    · cases hunsupported

/-- The function `f(X) -> X; f(Y) -> Y` and the specification `f() -> a; () -> b`. -/
theorem arities_of_clauses_sample :
    let functionTokens := [Lexeme.atom "f", .punct .openParen, .var "X", .punct .closeParen,
      .punct .arrow, .var "X", .punct .semicolon, .atom "f", .punct .openParen, .var "Y",
      .punct .closeParen, .punct .arrow, .var "Y", .dot]
    let specTokens := [Lexeme.punct .minus, .atom "spec", .atom "f", .punct .openParen,
      .punct .closeParen, .punct .arrow, .atom "a", .punct .semicolon, .punct .openParen,
      .punct .closeParen, .punct .arrow, .atom "b", .dot]
    let clauses := [Clause.mk [.var "X"] [] [.var "X"], .mk [.var "Y"] [] [.var "Y"]]
    let signatures := [Signature.mk [] (.atom "a") [], ⟨[], .atom "b", []⟩]
    (∃ tokens expr, Expr.ofTokens tokens = .ok expr ∧ expr.HoldsFun [1, 2]) ∧
    Declaration.ofTokens (functionTokens.map (Token.mk · 1)) = .ok (.function "f" 1 clauses) ∧
    Declaration.ofTokens (specTokens.map (Token.mk · 1)) = .ok (.spec "f" 0 signatures) ∧
    (∀ clause ∈ clauses, clause.patterns.length = 1) ∧
    ∀ signature ∈ signatures, signature.args.length = 0 := by
  intro functionTokens specTokens clauses signatures
  obtain ⟨hexprs, -, -, hfunctions, hspecs⟩ := arities_of_clauses [1, 2]
  have hfunction : Declaration.ofTokens (functionTokens.map (Token.mk · 1)) =
      .ok (.function "f" 1 clauses) := by rfl
  have hspec : Declaration.ofTokens (specTokens.map (Token.mk · 1)) =
      .ok (.spec "f" 0 signatures) := by rfl
  exact ⟨hexprs.1 (by decide), hfunction, hspec, hfunctions _ _ _ _ hfunction,
    hspecs _ _ _ _ hspec⟩

/-- The clauses of `fun (X) -> X; (X, Y) -> Y end` do not agree. -/
theorem not_same_arity :
    ¬ ∀ tokens expr, Expr.ofTokens tokens = .ok expr →
      ∀ clauses : List Clause, (Expr.fun_ clauses).Within expr →
        ∃ arity, ∀ clause ∈ clauses, clause.patterns.length = arity := by
  intro hsame
  let lexemes := [Lexeme.keyword .fun_, .punct .openParen, .var "X", .punct .closeParen,
    .punct .arrow, .var "X", .punct .semicolon, .punct .openParen, .var "X", .punct .comma,
    .var "Y", .punct .closeParen, .punct .arrow, .var "Y", .keyword .end_, .dot]
  have hread : Expr.ofTokens (lexemes.map (Token.mk · 1)) = .ok (.fun_
      [.mk [.var "X"] [] [.var "X"], .mk [.var "X", .var "Y"] [] [.var "Y"]]) := by rfl
  obtain ⟨arity, harity⟩ := hsame _ _ hread _ .refl
  have hfirst : 1 = arity := harity _ List.mem_cons_self
  have hsecond : 2 = arity := harity _ (.tail _ (.head _))
  omega

end Parser

end HeaderForms
