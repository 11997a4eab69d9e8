-- SUMMARY: Expressions are balanced: as arguments of a macro use they are told apart.
import HeaderForms.Expr.Parser
import HeaderForms.Proofs.Token.Balance

/-!
# Balance of expressions

Every construct of the expression grammar closes what it opens: brackets by brackets, and `begin`,
`case`, `if` and a `fun` with clauses by their `end`. Commas of an expression stand inside one of
them, also those between the expressions of a body and the conditions of a guard. So expressions as
the arguments of a macro use are told apart, whatever they hold.
-/

namespace HeaderForms

namespace Parser

open HeaderForms.Expansion (isNeutral)
open HeaderForms.Nesting (Nests steps_neutral steps_comma steps_opening steps_closing steps_block)

variable {nested : Parser Expr} {limit : Nat}

/-! ## Operators -/

theorem selectsNeutral_matchOp? : SelectsNeutral matchOp? := by
  intro lexeme combine h
  unfold matchOp? at h
  split at h <;> first | rfl | cases h

theorem selectsNeutral_orelseOp? : SelectsNeutral orelseOp? := by
  intro lexeme combine h
  unfold orelseOp? at h
  split at h <;> first | rfl | cases h

theorem selectsNeutral_andalsoOp? : SelectsNeutral andalsoOp? := by
  intro lexeme combine h
  unfold andalsoOp? at h
  split at h <;> first | rfl | cases h

theorem selectsNeutral_comparisonOp? : SelectsNeutral comparisonOp? := by
  intro lexeme op h
  unfold comparisonOp? at h
  split at h <;> first | rfl | cases h

theorem selectsNeutral_listOp? : SelectsNeutral listOp? := by
  intro lexeme combine h
  unfold listOp? at h
  split at h <;> first | rfl | cases h

theorem selectsNeutral_additiveOp? : SelectsNeutral additiveOp? := by
  intro lexeme op h
  unfold additiveOp? at h
  split at h <;> first | rfl | cases h

theorem selectsNeutral_multiplicativeOp? : SelectsNeutral multiplicativeOp? := by
  intro lexeme op h
  unfold multiplicativeOp? at h
  split at h <;> first | rfl | cases h

theorem selectsNeutral_signOp? : SelectsNeutral signOp? := by
  intro lexeme op h
  unfold signOp? at h
  split at h <;> first | rfl | cases h

theorem selectsNeutral_prefixOp? : SelectsNeutral prefixOp? := by
  intro lexeme op h
  unfold prefixOp? at h
  split at h
  case h_1 | h_2 => rfl
  case h_3 => exact selectsNeutral_signOp? h

/-! ## Sequences and clauses -/

theorem balancedInside_exprs (h : Balanced .expressions nested) :
    BalancedInside .expressions (exprs limit nested) :=
  balancedInside_separated h.inside limit

theorem balanced_arguments (h : Balanced .expressions nested) :
    Balanced .expressions (arguments limit nested) :=
  fun stack => (takes_expectPunct (steps_opening rfl)).bind fun _ =>
    closesLevel_delimited rfl h.inside limit stack

theorem balancedInside_guards (h : Balanced .expressions nested) :
    BalancedInside .expressions (guards limit nested) :=
  fun closer stack =>
    takes_separated (steps_neutral rfl) (balancedInside_exprs h closer stack) limit

theorem balancedInside_clauseRest (h : Balanced .expressions nested) (patterns : List Expr) :
    BalancedInside .expressions (clauseRest limit nested patterns) := by
  intro closer stack
  have hrest : ∀ guards : List (List Expr), Takes .expressions (do
      expectPunct .arrow
      return Clause.mk patterns guards (← exprs limit nested)) (closer :: stack)
        fun _ => closer :: stack :=
    fun guards => (takes_expectPunct (steps_neutral rfl)).bind fun _ =>
      (balancedInside_exprs h closer stack).bind fun _ => takes_pure
  refine (takes_eatKeyword (steps_neutral rfl)).bind fun guarded => ?_
  cases guarded with
  | true => exact (balancedInside_guards h closer stack).bind hrest
  | false => exact hrest []

theorem balancedInside_caseClause (h : Balanced .expressions nested) :
    BalancedInside .expressions (caseClause limit nested) :=
  fun closer stack => (h.inside closer stack).bind fun pattern =>
    balancedInside_clauseRest h [pattern] closer stack

theorem balancedInside_funClause (h : Balanced .expressions nested) :
    BalancedInside .expressions (funClause limit nested) :=
  fun closer stack => ((balanced_arguments h).inside closer stack).bind fun patterns =>
    balancedInside_clauseRest h patterns closer stack

theorem balancedInside_ifClause (h : Balanced .expressions nested) :
    BalancedInside .expressions (ifClause limit nested) :=
  fun closer stack => (balancedInside_guards h closer stack).bind fun _ =>
    (takes_expectPunct (steps_neutral rfl)).bind fun _ =>
      (balancedInside_exprs h closer stack).bind fun _ => takes_pure

/-- The `end` behind clauses closes the keyword in front of them. -/
theorem closesLevel_clausesToEnd {clause : Parser Clause} (h : BalancedInside .expressions clause) :
    ClosesLevel .expressions (.keyword .end_) (clausesToEnd limit clause) :=
  fun stack => (takes_separated (steps_neutral rfl) (h _ stack) limit).bind fun _ =>
    (takes_expectKeyword (steps_closing rfl)).bind fun _ => takes_pure

/-! ## Fields -/

theorem selectsNeutral_mapArrow? : SelectsNeutral mapArrow? := by
  intro lexeme exact h
  unfold mapArrow? at h
  split at h <;> first | rfl | cases h

theorem selectsNeutral_fieldName? : SelectsNeutral fieldName? := by
  intro lexeme name h
  unfold fieldName? at h
  split at h <;> first | rfl | cases h

theorem balanced_mapField (h : Balanced .expressions nested) :
    Balanced .expressions (mapField nested) :=
  fun stack => (h stack).bind fun _ => (balanced_take selectsNeutral_mapArrow? stack).bind fun _ =>
    (h stack).bind fun _ => takes_pure

theorem balanced_fieldValue (h : Balanced .expressions nested) :
    Balanced .expressions (fieldValue nested) :=
  fun stack => (balanced_takeAny selectsNeutral_fieldName? stack).bind fun _ =>
    (takes_expectPunct (steps_neutral rfl)).bind fun _ => (h stack).bind fun _ => takes_pure

theorem balanced_hashRest (h : Balanced .expressions nested) (map : List MapField → Expr)
    (access : String → String → Expr) (record : String → List FieldValue → Expr) :
    Balanced .expressions (hashRest limit nested map access record) := by
  intro stack
  refine (takes_eatPunct (steps_opening rfl)).bind fun isMap => ?_
  cases isMap with
  | true =>
    have hfields : ClosesLevel .expressions (.punct .closeBrace)
        (delimited limit .closeBrace (mapField nested)) :=
      closesLevel_delimited rfl (balanced_mapField h).inside limit
    exact (hfields stack).bind fun _ => takes_pure
  | false =>
    refine (balanced_expectAtom stack).bind fun name => ?_
    refine (takes_eatPunct (steps_neutral rfl)).bind fun isAccess => ?_
    cases isAccess with
    | true => exact (balanced_expectAtom stack).bind fun _ => takes_pure
    | false =>
      have hfields : ClosesLevel .expressions (.punct .closeBrace)
          (delimited limit .closeBrace (fieldValue nested)) :=
        closesLevel_delimited rfl (balanced_fieldValue h).inside limit
      refine (takes_expectPunct (steps_opening rfl)).bind fun _ => ?_
      exact (hfields stack).bind fun _ => takes_pure

/-! ## Primary expressions -/

theorem balanced_qualifier (h : Balanced .expressions nested) :
    Balanced .expressions (listRest.qualifier nested) := by
  intro stack
  refine (h stack).bind fun pattern => ?_
  refine (takes_eatPunct (steps_neutral rfl)).bind fun isGenerator => ?_
  cases isGenerator with
  | true => exact (h stack).bind fun _ => takes_pure
  | false =>
    refine (takes_eatPunct (steps_neutral rfl)).bind fun isBitGenerator => ?_
    cases isBitGenerator with
    | true => exact (h stack).bind fun _ => takes_pure
    | false => exact takes_pure

theorem closesLevel_listRest (h : Balanced .expressions nested) :
    ClosesLevel .expressions (.punct .closeBracket) (listRest limit nested) := by
  intro stack
  have hclose : ∀ tail, ∀ items : List Expr, Takes .expressions (do
      expectPunct .closeBracket
      return items.foldr Expr.cons tail) (.punct .closeBracket :: stack) fun _ => stack :=
    fun tail items => (takes_expectPunct (steps_closing rfl)).bind fun _ => takes_pure
  have htail : ∀ items : List Expr, Takes .expressions (do
      let tail ← if ← eatPunct .bar then nested else pure Expr.nil
      expectPunct .closeBracket
      return items.foldr Expr.cons tail) (.punct .closeBracket :: stack) fun _ => stack := by
    intro items
    refine (takes_eatPunct (steps_neutral rfl)).bind fun isDotted => ?_
    cases isDotted with
    | true => exact (h _).bind fun tail => hclose tail items
    | false => exact hclose .nil items
  refine (takes_eatPunct (steps_closing rfl)).bind fun isEmpty => ?_
  cases isEmpty with
  | true => exact takes_pure
  | false =>
    refine (h _).bind fun head => ?_
    refine (takes_eatPunct (steps_neutral rfl)).bind fun isComprehension => ?_
    cases isComprehension with
    | true =>
      have hqualifiers : ClosesLevel .expressions (.punct .closeBracket)
          (delimited limit .closeBracket (listRest.qualifier nested)) :=
        closesLevel_delimited rfl (balanced_qualifier h).inside limit
      exact (hqualifiers stack).bind fun _ => takes_pure
    | false =>
      refine (takes_eatPunct steps_comma).bind fun hasMore => ?_
      cases hasMore with
      | true => exact (balancedInside_exprs h _ stack).bind fun others => htail (head :: others)
      | false => exact htail [head]

theorem balanced_elementSpec : Balanced .expressions elementSpec := by
  intro stack
  refine (balanced_expectAtom stack).bind fun name => ?_
  refine (takes_eatPunct (steps_neutral rfl)).bind fun hasUnit => ?_
  cases hasUnit with
  | true => exact (balanced_expectInteger stack).map.bind fun _ => takes_pure
  | false => exact takes_pure

theorem balanced_binElement {primary : Parser Expr} (h : Balanced .expressions primary) :
    Balanced .expressions (binElement limit primary) := by
  intro stack
  have hspecs : ∀ value : Expr, ∀ size : Option Expr, Takes .expressions (do
      let specs ← if ← eatPunct .slash then separated limit .minus elementSpec else pure []
      return BinElement.mk value size specs) stack fun _ => stack := by
    intro value size
    refine (takes_eatPunct (steps_neutral rfl)).bind fun hasSpecs => ?_
    cases hasSpecs with
    | true =>
      exact (takes_separated (steps_neutral rfl) (balanced_elementSpec stack) limit).bind fun _ =>
        takes_pure
    | false => exact takes_pure
  have hsize : ∀ value : Expr, Takes .expressions (do
      let size ← if ← eatPunct .colon then some <$> primary else pure none
      let specs ← if ← eatPunct .slash then separated limit .minus elementSpec else pure []
      return BinElement.mk value size specs) stack fun _ => stack := by
    intro value
    refine (takes_eatPunct (steps_neutral rfl)).bind fun hasSize => ?_
    cases hasSize with
    | true => exact (h stack).map.bind fun size => hspecs value size
    | false => exact hspecs value none
  refine (balanced_take? selectsNeutral_signOp? stack).bind fun op => ?_
  cases op with
  | none => exact (h stack).bind hsize
  | some op => exact (h stack).map.bind hsize

theorem closesLevel_binaryRest {primary : Parser Expr} (h : Balanced .expressions primary) :
    ClosesLevel .expressions (.punct .closeBinary) (binaryRest limit primary) := by
  intro stack
  refine (takes_eatPunct (steps_closing rfl)).bind fun isEmpty => ?_
  cases isEmpty with
  | true => exact takes_pure
  | false =>
    refine (balancedInside_separated (balanced_binElement h).inside limit _ stack).bind fun _ => ?_
    exact (takes_expectPunct (steps_closing rfl)).bind fun _ => takes_pure

/-- A reference to a function opens nothing. -/
theorem exists_of_reference {next : Parser Expr} (h : Balanced .expressions next)
    {first second : Token} (hfirst : isNeutral first.lexeme = true)
    (hsecond : isNeutral second.lexeme = true) {behind rest : List Token} {value : Expr}
    (hok : next behind = .ok (value, rest)) (line : Nat) (stack : List Lexeme) :
    ∃ taken, first :: second :: behind = taken ++ rest ∧
      Nests .expressions stack stack (⟨.keyword .fun_, line⟩ :: taken) := by
  obtain ⟨taken, rfl, hnests⟩ := h stack behind hok
  have hparen : first.lexeme ≠ .punct .openParen := by
    intro heq
    rw [heq] at hfirst
    cases hfirst
  exact ⟨first :: second :: taken, rfl, .funName rfl hparen (.plain hfirst (.plain hsecond hnests))⟩

/-- Clauses close the level that a `fun` opens in front of their parenthesis. -/
theorem exists_of_funClauses {next : Parser Expr}
    (h : ClosesLevel .expressions (.keyword .end_) next)
    {behind rest : List Token} {value : Expr} {parenLine : Nat}
    (hok : next (⟨.punct .openParen, parenLine⟩ :: behind) = .ok (value, rest))
    (line : Nat) (stack : List Lexeme) :
    ∃ taken, ⟨.punct .openParen, parenLine⟩ :: behind = taken ++ rest ∧
      Nests .expressions stack stack (⟨.keyword .fun_, line⟩ :: taken) := by
  obtain ⟨taken, htaken, hnests⟩ := h stack _ hok
  cases taken with
  | nil => exact absurd hnests.eq_of_nil (List.cons_ne_self _ _)
  | cons paren taken =>
    have hparen : paren = ⟨.punct .openParen, parenLine⟩ := (List.cons.inj htaken).1.symm
    exact ⟨paren :: taken, htaken, .funClauses rfl (by rw [hparen]) hnests⟩

/-- What follows a `fun` closes, together with it, what it opens. -/
theorem exists_of_funRest (h : Balanced .expressions nested) {tokens rest : List Token}
    {value : Expr} (hok : funRest limit nested tokens = .ok (value, rest)) (line : Nat)
    (stack : List Lexeme) :
    ∃ taken, tokens = taken ++ rest ∧
      Nests .expressions stack stack (⟨.keyword .fun_, line⟩ :: taken) := by
  have hlocal : ∀ name : String,
      Balanced .expressions (do return Expr.funRef none name (← expectArity)) :=
    fun name stack => (balanced_expectArity stack).bind fun _ => takes_pure
  have hremote : ∀ module : String, Balanced .expressions (do
      let name ← expectAtom
      expectPunct .slash
      return Expr.funRef (some module) name (← expectArity)) :=
    fun module stack => (balanced_expectAtom stack).bind fun _ =>
      (takes_expectPunct (steps_neutral rfl)).bind fun _ =>
        (balanced_expectArity stack).bind fun _ => takes_pure
  have hclauses : ClosesLevel .expressions (.keyword .end_) (do
      return Expr.fun_ (← clausesToEnd limit (funClause limit nested))) :=
    fun stack => (closesLevel_clausesToEnd (balancedInside_funClause h) stack).bind fun _ =>
      takes_pure
  cases tokens with
  | nil => cases hok
  | cons first behind =>
    obtain ⟨firstLexeme, firstLine⟩ := first
    cases firstLexeme with
    | atom name =>
      cases behind with
      | nil => cases hok
      | cons second behind =>
        obtain ⟨secondLexeme, secondLine⟩ := second
        cases secondLexeme with
        | punct mark =>
          cases mark with
          | slash => exact exists_of_reference (hlocal name) rfl rfl hok line stack
          | colon => exact exists_of_reference (hremote name) rfl rfl hok line stack
          | _ => cases hok
        | _ => cases hok
    | punct mark =>
      cases mark with
      | openParen => exact exists_of_funClauses hclauses hok line stack
      | _ => cases hok
    | _ => cases hok

theorem balanced_strings : Balanced .expressions strings := by
  intro stack tokens value rest hstrings
  cases hstrings
  refine ⟨_, (List.prefix_iff_eq_append.1 (List.takeWhile_prefix _)).symm, ?_⟩
  refine Nesting.nests_neutral fun token htoken => ?_
  have hstring := List.all_eq_true.1 List.all_takeWhile token htoken
  dsimp only at hstring
  split at hstring
  case h_1 text heq =>
    rw [heq]
    rfl
  case h_2 => cases hstring

theorem balanced_primaryWithin (h : Balanced .expressions nested) (bound : Nat) :
    Balanced .expressions (primaryWithin limit nested bound) := by
  induction bound with
  | zero => exact fun stack => takes_unexpected
  | succ bound ih =>
    intro stack tokens
    refine takesFrom_peek ?_
    cases tokens with
    | nil => exact takes_unexpected []
    | cons token tokens =>
      obtain ⟨lexeme, line⟩ := token
      cases lexeme with
      | atom | var | integer | float | char =>
        exact (takesFrom_skip (steps_neutral rfl)).bind fun _ => takes_pure
      | bigInteger => exact takes_fail _
      | string => exact ((balanced_strings stack).bind fun _ => takes_pure) _
      | dot => exact takes_unexpected _
      | punct mark =>
        cases mark with
        | openParen =>
          refine (takesFrom_skip (steps_opening rfl)).bind fun _ => (h _).bind fun _ => ?_
          exact (takes_expectPunct (steps_closing rfl)).bind fun _ => takes_pure
        | openBracket =>
          exact (takesFrom_skip (steps_opening rfl)).bind fun _ => closesLevel_listRest h stack
        | openBrace =>
          refine (takesFrom_skip (steps_opening rfl)).bind fun _ => ?_
          exact (closesLevel_delimited rfl h.inside limit stack).bind fun _ => takes_pure
        | openBinary =>
          exact (takesFrom_skip (steps_opening rfl)).bind fun _ => closesLevel_binaryRest ih stack
        | hash =>
          exact (takesFrom_skip (steps_neutral rfl)).bind fun _ => balanced_hashRest h _ _ _ stack
        | _ => exact takes_unexpected _
      | keyword word =>
        cases word with
        | begin_ =>
          refine (takesFrom_skip (steps_block rfl)).bind fun _ => ?_
          refine (balancedInside_exprs h _ stack).bind fun _ => ?_
          exact (takes_expectKeyword (steps_closing rfl)).bind fun _ => takes_pure
        | case_ =>
          refine (takesFrom_skip (steps_block rfl)).bind fun _ => (h _).bind fun _ => ?_
          refine (takes_expectKeyword (steps_neutral rfl)).bind fun _ => ?_
          exact (closesLevel_clausesToEnd (balancedInside_caseClause h) stack).bind fun _ =>
            takes_pure
        | if_ =>
          refine (takesFrom_skip (steps_block rfl)).bind fun _ => ?_
          exact (closesLevel_clausesToEnd (balancedInside_ifClause h) stack).bind fun _ =>
            takes_pure
        | fun_ =>
          intro value rest hok
          obtain ⟨taken, rfl, hnests⟩ := exists_of_funRest h hok line stack
          exact ⟨_ :: taken, rfl, hnests⟩
        | receive | try_ | cond | let_ => exact takes_fail _
        | _ => exact takes_unexpected _

/-! ## Levels -/

theorem balanced_postfixFrom (h : Balanced .expressions nested) (rounds : Nat) (expr : Expr) :
    Balanced .expressions (postfixFrom limit nested rounds expr) := by
  intro stack
  induction rounds generalizing expr with
  | zero => exact takes_pure
  | succ rounds ih =>
    refine (takes_eatPunct (steps_neutral rfl)).bind fun isRemote => ?_
    cases isRemote with
    | true =>
      refine (balanced_primaryWithin h limit stack).bind fun function => ?_
      exact (balanced_arguments h stack).bind fun args => ih _
    | false =>
      refine (balanced_atPunct stack).bind fun isCall => ?_
      cases isCall with
      | true => exact (balanced_arguments h stack).bind fun args => ih _
      | false =>
        refine (takes_eatPunct (steps_neutral rfl)).bind fun isAccess => ?_
        cases isAccess with
        | true => exact (balanced_hashRest h _ _ _ stack).bind fun access => ih _
        | false => exact takes_pure

theorem balanced_postfixLevel (h : Balanced .expressions nested) :
    Balanced .expressions (postfixLevel limit nested) :=
  fun stack => (balanced_primaryWithin h limit stack).bind fun expr =>
    balanced_postfixFrom h limit expr stack

variable {operand : Parser Expr}

theorem balanced_prefixFrom (h : Balanced .expressions operand) (rounds : Nat) :
    Balanced .expressions (prefixFrom operand rounds) := by
  intro stack
  induction rounds with
  | zero => exact h stack
  | succ rounds ih =>
    refine (balanced_take? selectsNeutral_prefixOp? stack).bind fun op => ?_
    cases op with
    | some op => exact ih.map
    | none => exact h stack

theorem balanced_leftFrom {operator? : Lexeme → Option BinaryOp}
    (hoperator : SelectsNeutral operator?) (h : Balanced .expressions operand) (rounds : Nat)
    (left : Expr) :
    Balanced .expressions (leftFrom operator? operand rounds left) := by
  intro stack
  induction rounds generalizing left with
  | zero => exact takes_pure
  | succ rounds ih =>
    refine (balanced_take? hoperator stack).bind fun op => ?_
    cases op with
    | some op => exact (h stack).bind fun right => ih _
    | none => exact takes_pure

theorem balanced_leftLevel {operator? : Lexeme → Option BinaryOp}
    (hoperator : SelectsNeutral operator?) (h : Balanced .expressions operand) :
    Balanced .expressions (leftLevel limit operator? operand) :=
  fun stack => (h stack).bind fun left => balanced_leftFrom hoperator h limit left stack

theorem balanced_rightLevel {operator? : Lexeme → Option (Expr → Expr → Expr)}
    (hoperator : SelectsNeutral operator?) (h : Balanced .expressions operand) (rounds : Nat) :
    Balanced .expressions (rightLevel operator? operand rounds) := by
  intro stack
  induction rounds with
  | zero => exact h stack
  | succ rounds ih =>
    refine (h stack).bind fun left => (balanced_take? hoperator stack).bind fun combine => ?_
    cases combine with
    | some combine => exact ih.map
    | none => exact takes_pure

theorem balanced_comparisonLevel (h : Balanced .expressions operand) :
    Balanced .expressions (comparisonLevel operand) := by
  intro stack
  refine (h stack).bind fun left => ?_
  refine (balanced_take? selectsNeutral_comparisonOp? stack).bind fun op => ?_
  cases op with
  | some op => exact (h stack).map
  | none => exact takes_pure

theorem balanced_matchLevel (h : Balanced .expressions nested) :
    Balanced .expressions (matchLevel limit nested) := by
  have hprefix : Balanced .expressions (prefixLevel limit nested) :=
    balanced_prefixFrom (balanced_postfixLevel h) limit
  have hadditive : Balanced .expressions (additiveLevel limit nested) :=
    balanced_leftLevel selectsNeutral_additiveOp?
      (balanced_leftLevel selectsNeutral_multiplicativeOp? hprefix)
  have hcomparison := balanced_comparisonLevel
    (balanced_rightLevel selectsNeutral_listOp? hadditive limit)
  have handalso := balanced_rightLevel selectsNeutral_andalsoOp? hcomparison limit
  exact balanced_rightLevel selectsNeutral_matchOp?
    (balanced_rightLevel selectsNeutral_orelseOp? handalso limit) limit

theorem balanced_exprWithin (limit : Nat) : Balanced .expressions (exprWithin limit) := by
  induction limit with
  | zero => exact fun stack => takes_unexpected
  | succ limit ih =>
    intro stack
    refine (takes_eatKeyword (steps_neutral rfl)).bind fun isCatch => ?_
    cases isCatch with
    | true => exact (ih stack).bind fun _ => takes_pure
    | false => exact balanced_matchLevel ih stack

end Parser

/-! ## Arguments -/

/-- The tokens of an expression come back to their depth. -/
theorem Expr.moves_of_ofTokens {tokens : List Token} {stop : Token} {expr : Expr}
    (hstop : stop.isDot = true) (h : ofTokens (tokens ++ [stop]) = .ok expr) :
    Expansion.Moves 0 0 0 tokens ∧ tokens ≠ [] := by
  constructor
  · obtain ⟨rest, hok⟩ := Parser.ok_of_parse h
    obtain ⟨found, behind, hfound, hend⟩ := Parser.bind_eq_ok.1 hok
    obtain ⟨_, behind', hlast, hsingle⟩ := Parser.bind_eq_ok.1 hend
    obtain ⟨line, rfl, -⟩ := Parser.exists_of_expectEnd hlast
    split at hsingle
    case h_2 => cases hsingle
    case h_1 value =>
      have hitem := Parser.item_of_separated (by simp) hfound
      obtain ⟨taken, htaken, hnests⟩ := Parser.balanced_exprWithin _ [] _ hitem
      rw [(List.append_inj' htaken rfl).1]
      exact hnests.moves
  · rintro rfl
    obtain ⟨lexeme, line⟩ := stop
    have hdot : lexeme = .dot := by simpa [Token.isDot] using hstop
    rw [hdot] at h
    cases h

namespace Expansion

/-- Expressions as the arguments of a macro use are told apart, whatever commas and brackets are
in them. -/
theorem argumentsFrom_of_exprs {arguments : List (List Token)} {tokens : List Token}
    (hlist : ArgumentList arguments tokens)
    (hexprs : ∀ argument ∈ arguments, ∃ stop expr, stop.isDot = true ∧
      Expr.ofTokens (argument ++ [stop]) = .ok expr)
    (rest : List Token) :
    argumentsFrom 0 [] [] (tokens ++ rest) = some (arguments, rest) := by
  have hmoves : ∀ argument ∈ arguments, Moves 0 0 0 argument ∧ argument ≠ [] := by
    intro argument hargument
    obtain ⟨stop, expr, hstop, hexpr⟩ := hexprs argument hargument
    exact Expr.moves_of_ofTokens hstop hexpr
  exact hlist.argumentsFrom_eq (fun argument h => (hmoves argument h).1)
    (fun argument _ => Nat.zero_mul _) (fun argument h => (hmoves argument h).2) rest

/-- Neither the comma in the body of the `fun` nor the one in the tuple ends an argument, and the
tokens behind the list stay. -/
theorem argumentsFrom_of_exprs_sample :
    let clause := [Lexeme.keyword .fun_, .punct .openParen, .var "X", .punct .closeParen,
      .punct .arrow, .var "X", .punct .comma, .atom "ok", .keyword .end_].map (Token.mk · 1)
    let pair := [Lexeme.punct .openBrace, .var "X", .punct .comma, .integer 2,
      .punct .closeBrace].map (Token.mk · 2)
    let behind := [Lexeme.punct .comma, .var "Y", .punct .closeParen].map (Token.mk · 3)
    argumentsFrom 0 [] [] (clause ++ ⟨.punct .comma, 1⟩ :: (pair ++ [⟨.punct .closeParen, 2⟩]) ++
      behind) = some ([clause, pair], behind) := by
  intro clause pair behind
  refine argumentsFrom_of_exprs (.more .last) (List.forall_mem_cons.2 ⟨?_, ?_⟩) behind
  · exact ⟨⟨.dot, 1⟩, _, rfl, rfl⟩
  · exact List.forall_mem_singleton.2 ⟨⟨.dot, 2⟩, _, rfl, rfl⟩

end Expansion

end HeaderForms
