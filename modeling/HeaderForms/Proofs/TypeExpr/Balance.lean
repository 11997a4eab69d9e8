-- SUMMARY: Types as macro arguments are told apart exactly when no function type is in them.
import HeaderForms.Declaration.Parser
import HeaderForms.Header
import HeaderForms.Proofs.Token.Balance

/-!
# Balance of types

A function type is a `fun` in front of a parenthesis, and no `end` comes behind it. To the scan for
arguments it opens a level as the clauses of an expression do, and nothing in the type closes that
level. Every other construct of the type grammar comes back to its depth. So a run of types moves
the depth up by the number of function types in it, and types as the arguments of a macro use are
told apart exactly when there are none.
-/

namespace HeaderForms

namespace Parser

open HeaderForms.Nesting (Nests steps_neutral steps_comma steps_opening steps_closing)

variable {nested : Parser TypeExpr} {limit : Nat}

/-! ## Parts -/

theorem closesLevel_types (h : Balanced .types nested) {close : Punct}
    (hclose : Expansion.closes (.punct close) = true) :
    ClosesLevel .types (.punct close) (delimited limit close nested) :=
  closesLevel_delimited hclose h.inside limit

theorem balanced_typeArguments (h : Balanced .types nested) :
    Balanced .types (typeArguments limit nested) :=
  fun stack => (takes_expectPunct (steps_opening rfl)).bind fun _ => closesLevel_types h rfl stack

theorem selectsNeutral_typeArrow? : SelectsNeutral typeArrow? := by
  intro lexeme exact h
  unfold typeArrow? at h
  split at h <;> first | rfl | cases h

theorem balanced_mapFieldType (h : Balanced .types nested) :
    Balanced .types (mapFieldType nested) :=
  fun stack => (h stack).bind fun _ => (balanced_take selectsNeutral_typeArrow? stack).bind fun _ =>
    (h stack).bind fun _ => takes_pure

theorem balanced_fieldType (h : Balanced .types nested) : Balanced .types (fieldType nested) :=
  fun stack => (balanced_expectAtom stack).bind fun _ =>
    (takes_expectPunct (steps_neutral rfl)).bind fun _ => (h stack).bind fun _ => takes_pure

theorem balanced_namedRest (h : Balanced .types nested) (name : String) :
    Balanced .types (namedRest limit nested name) := by
  intro stack
  refine (balanced_atPunct stack).bind fun isApplied => ?_
  cases isApplied with
  | true => exact (balanced_typeArguments h stack).bind fun _ => takes_pure
  | false =>
    refine (takes_eatPunct (steps_neutral rfl)).bind fun isRemote => ?_
    cases isRemote with
    | true =>
      refine (balanced_expectAtom stack).bind fun remote => ?_
      exact (balanced_typeArguments h stack).bind fun _ => takes_pure
    | false => exact takes_pure

theorem closesLevel_listTypeRest (h : Balanced .types nested) :
    ClosesLevel .types (.punct .closeBracket) (listTypeRest nested) := by
  intro stack
  refine (takes_eatPunct (steps_closing rfl)).bind fun isEmpty => ?_
  cases isEmpty with
  | true => exact takes_pure
  | false =>
    refine (h _).bind fun item => ?_
    refine (takes_eatPunct steps_comma).bind fun isNonEmpty => ?_
    cases isNonEmpty with
    | true =>
      refine (takes_expectPunct (steps_neutral rfl)).bind fun _ => ?_
      exact (takes_expectPunct (steps_closing rfl)).bind fun _ => takes_pure
    | false => exact (takes_expectPunct (steps_closing rfl)).bind fun _ => takes_pure

theorem balanced_hashTypeRest (h : Balanced .types nested) :
    Balanced .types (hashTypeRest limit nested) := by
  intro stack
  refine (takes_eatPunct (steps_opening rfl)).bind fun isMap => ?_
  cases isMap with
  | true =>
    have hfields : ClosesLevel .types (.punct .closeBrace)
        (delimited limit .closeBrace (mapFieldType nested)) :=
      closesLevel_delimited rfl (balanced_mapFieldType h).inside limit
    exact (hfields stack).bind fun _ => takes_pure
  | false =>
    have hfields : ClosesLevel .types (.punct .closeBrace)
        (delimited limit .closeBrace (fieldType nested)) :=
      closesLevel_delimited rfl (balanced_fieldType h).inside limit
    refine (balanced_expectAtom stack).bind fun name => ?_
    refine (takes_expectPunct (steps_opening rfl)).bind fun _ => ?_
    exact (hfields stack).bind fun _ => takes_pure

/-- The result of a function type and the parenthesis behind it. -/
theorem closesLevel_result (h : Balanced .types nested) :
    ClosesLevel .types (.punct .closeParen) (funTypeRest.result nested) :=
  fun _ => (takes_expectPunct (steps_neutral rfl)).bind fun _ => (h _).bind fun _ =>
    (takes_expectPunct (steps_closing rfl)).bind fun _ => takes_pure

/-- The parentheses of a function type close what they open, and no `end` is behind them. -/
theorem exists_of_funTypeRest (h : Balanced .types nested) {tokens rest : List Token}
    {value : TypeExpr} (hok : funTypeRest limit nested tokens = .ok (value, rest)) (line : Nat)
    (stack : List Lexeme) :
    ∃ taken, tokens = taken ++ rest ∧
      Nests .types stack stack (⟨.keyword .fun_, line⟩ :: taken) := by
  obtain ⟨_, behind, hparen, hparens⟩ := bind_eq_ok.1 hok
  obtain ⟨parenLine, rfl⟩ := exists_of_expectPunct hparen
  have hrest : ∃ taken, behind = taken ++ rest ∧
      Nests .types (.punct .closeParen :: stack) stack taken := by
    refine (?_ : Takes .types _ (.punct .closeParen :: stack) fun _ => stack) behind hparens
    refine (takes_eatPunct (steps_closing rfl)).bind fun isAny => ?_
    cases isAny with
    | true => exact takes_pure
    | false =>
      refine (takes_expectPunct (steps_opening rfl)).bind fun _ => ?_
      refine (takes_eatPunct (steps_neutral rfl)).bind fun isAnyArgs => ?_
      cases isAnyArgs with
      | true =>
        refine (takes_expectPunct (steps_closing rfl)).bind fun _ => ?_
        exact (closesLevel_result h _).map
      | false =>
        refine (closesLevel_types h rfl _).bind fun args => ?_
        exact (closesLevel_result h _).map
  obtain ⟨taken, rfl, hnests⟩ := hrest
  exact ⟨⟨.punct .openParen, parenLine⟩ :: taken, rfl, .funType rfl rfl (.opening rfl hnests)⟩

theorem balanced_bitSegment : Balanced .types bitSegment := by
  intro stack
  refine (balanced_expectVar stack).bind fun _ => ?_
  refine (takes_expectPunct (steps_neutral rfl)).bind fun _ => ?_
  refine (balanced_take? selectsNeutral_varName? stack).bind fun unit => ?_
  cases unit with
  | some _ =>
    exact (takes_expectPunct (steps_neutral rfl)).bind fun _ => (balanced_expectInteger stack).map
  | none => exact (balanced_expectInteger stack).map

theorem closesLevel_bitstringRest :
    ClosesLevel .types (.punct .closeBinary) (bitstringRest limit) := by
  intro stack
  refine (takes_eatPunct (steps_closing rfl)).bind fun isEmpty => ?_
  cases isEmpty with
  | true => exact takes_pure
  | false =>
    refine (balancedInside_separated balanced_bitSegment.inside limit _ stack).bind fun _ => ?_
    exact (takes_expectPunct (steps_closing rfl)).bind fun _ => takes_pure

/-! ## Types -/

theorem balanced_primaryType (h : Balanced .types nested) :
    Balanced .types (primaryType limit nested) := by
  intro stack tokens
  refine takesFrom_peek ?_
  cases tokens with
  | nil => exact takes_unexpected []
  | cons token tokens =>
    obtain ⟨lexeme, line⟩ := token
    cases lexeme with
    | var | char => exact (takesFrom_skip (steps_neutral rfl)).bind fun _ => takes_pure
    | integer => exact (balanced_expectInteger stack).map _
    | atom name =>
      exact (takesFrom_skip (steps_neutral rfl)).bind fun _ => balanced_namedRest h name stack
    | punct mark =>
      cases mark with
      | minus => exact (balanced_expectInteger stack).map _
      | openParen =>
        refine (takesFrom_skip (steps_opening rfl)).bind fun _ => (h _).bind fun _ => ?_
        exact (takes_expectPunct (steps_closing rfl)).bind fun _ => takes_pure
      | openBracket =>
        exact (takesFrom_skip (steps_opening rfl)).bind fun _ => closesLevel_listTypeRest h stack
      | openBrace =>
        refine (takesFrom_skip (steps_opening rfl)).bind fun _ => ?_
        exact (closesLevel_types h rfl stack).bind fun _ => takes_pure
      | hash =>
        exact (takesFrom_skip (steps_neutral rfl)).bind fun _ => balanced_hashTypeRest h stack
      | openBinary =>
        exact (takesFrom_skip (steps_opening rfl)).bind fun _ => closesLevel_bitstringRest stack
      | _ => exact takes_unexpected _
    | keyword word =>
      cases word with
      | fun_ =>
        intro value rest hok
        obtain ⟨taken, rfl, hnests⟩ := exists_of_funTypeRest h hok line stack
        exact ⟨_ :: taken, rfl, hnests⟩
      | _ => exact takes_unexpected _
    | _ => exact takes_unexpected _

theorem balanced_alternativeType (h : Balanced .types nested) :
    Balanced .types (alternativeType limit nested) := by
  intro stack tokens
  have hrange : Takes .types (do
      let low ← primaryType limit nested
      if ← eatPunct .range then return TypeExpr.range low (← primaryType limit nested)
      return low) stack fun _ => stack := by
    refine (balanced_primaryType h stack).bind fun low => ?_
    refine (takes_eatPunct (steps_neutral rfl)).bind fun isRange => ?_
    cases isRange with
    | true => exact (balanced_primaryType h stack).bind fun _ => takes_pure
    | false => exact takes_pure
  refine takesFrom_peekTwo ?_
  split
  case h_1 name heq =>
    obtain ⟨hfirst, hsecond⟩ := Prod.mk.inj heq
    cases tokens with
    | nil => cases hfirst
    | cons first behind =>
      cases behind with
      | nil => cases hsecond
      | cons second behind =>
        have hname : first.lexeme = .var name := Option.some.inj hfirst
        have hcolons : second.lexeme = .punct .doubleColon := Option.some.inj hsecond
        have hskip : TakesFrom .types (first :: second :: behind) (skip 2) stack fun _ => stack :=
          takesFrom_skipTwo (steps_neutral (by rw [hname]; rfl))
            (steps_neutral (by rw [hcolons]; rfl))
        exact hskip.bind fun _ => (h stack).bind fun _ => takes_pure
  case h_2 => exact hrange tokens

theorem balanced_typeWithin (limit : Nat) : Balanced .types (typeWithin limit) := by
  induction limit with
  | zero => exact fun stack => takes_unexpected
  | succ limit ih =>
    intro stack
    exact (takes_separated (steps_neutral rfl) (balanced_alternativeType ih stack) _).map

/-! ## Definitions of types -/

/-- The lexemes in front of the definition of a type without parameters. -/
def typeHead : List Lexeme :=
  [.punct .minus, .atom "type", .atom "x", .punct .openParen, .punct .closeParen,
   .punct .doubleColon]

/-- A declaration that begins like that of a type is a type and an end marker behind. -/
theorem typeWithin_of_declaration {line : Nat} {behind rest : List Token} {found : Declaration}
    (h : declaration limit (typeHead.map (Token.mk · line) ++ behind) = .ok (found, rest)) :
    ∃ definition stop, typeWithin limit behind = .ok (definition, [⟨.dot, stop⟩]) := by
  have hhead : attributeBody limit "type" (typeHead.tail.tail.map (Token.mk · line) ++ behind) =
      (do return Declaration.type "x" [] (← typeWithin limit)) behind := rfl
  have hmay : mayBeWrapped "type" = true := by decide
  obtain ⟨minus, _, hminus, hrest⟩ := bind_eq_ok.1 h
  cases hminus
  obtain ⟨declared, _, hattribute, hend⟩ := bind_eq_ok.1 hrest
  obtain ⟨_, _, hlast, -⟩ := bind_eq_ok.1 hend
  obtain ⟨stop, rfl, -⟩ := exists_of_expectEnd hlast
  obtain ⟨name, _, hname, hwrap⟩ := bind_eq_ok.1 hattribute
  cases hname
  rw [hmay] at hwrap
  -- The parenthesis behind the name of the type closes at once, and it wraps nothing.
  obtain ⟨wrapped, _, hwrapped, hunwrapped⟩ := bind_eq_ok.1 hwrap
  cases hwrapped
  obtain ⟨_, _, hbody, hdone⟩ := bind_eq_ok.1 hunwrapped
  cases hdone
  obtain ⟨definition, _, hdefinition, hpure⟩ := bind_eq_ok.1 (hhead.symm.trans hbody)
  cases hpure
  exact ⟨definition, stop, hdefinition⟩

end Parser

namespace TypeExpr

/-- The tokens are accepted in full as the definition of a type. -/
def IsText (tokens : List Token) : Prop :=
  ∃ line stop definition, stop.isDot = true ∧
    Declaration.ofTokens (Parser.typeHead.map (Token.mk · line) ++ (tokens ++ [stop])) =
      .ok (.type "x" [] definition)

theorem IsText.exists_typeWithin {tokens : List Token} (h : IsText tokens) :
    ∃ limit definition stop, Parser.typeWithin limit (tokens ++ [⟨.dot, stop⟩]) =
      .ok (definition, [⟨.dot, stop⟩]) := by
  obtain ⟨line, ⟨lexeme, stop⟩, definition, hstop, hok⟩ := h
  have hdot : lexeme = .dot := by simpa [Token.isDot] using hstop
  subst hdot
  simp only [Declaration.ofTokens] at hok
  split at hok
  case h_1 found hparse =>
    obtain ⟨rest, hrest⟩ := Parser.ok_of_parse hparse
    obtain ⟨value, stop', hvalue⟩ := Parser.typeWithin_of_declaration hrest
    obtain ⟨taken, htaken, -⟩ := Parser.balanced_typeWithin _ [] _ hvalue
    obtain ⟨-, hsame⟩ := List.append_inj' htaken rfl
    cases hsame
    exact ⟨_, value, stop, hvalue⟩
  case h_2 => split at hok <;> cases hok

/-- The tokens of a type come back to their depth but for the levels of its function types. -/
theorem IsText.moves {tokens : List Token} (h : IsText tokens) :
    Expansion.Moves 1 0 0 tokens ∧ tokens ≠ [] := by
  obtain ⟨limit, definition, stop, hok⟩ := h.exists_typeWithin
  constructor
  · obtain ⟨taken, htaken, hnests⟩ := Parser.balanced_typeWithin limit [] _ hok
    rw [(List.append_inj' htaken rfl).1]
    exact hnests.moves
  · rintro rfl
    cases limit <;> cases hok

end TypeExpr

namespace Expansion

/-- Types as the arguments of a macro use are told apart exactly when no function type is in them:
behind one the parenthesis that should end the list closes the level of the `fun`. -/
theorem argumentsFrom_of_types {arguments : List (List Token)} {tokens : List Token}
    (hlist : ArgumentList arguments tokens)
    (htypes : ∀ argument ∈ arguments, TypeExpr.IsText argument) (rest : List Token) :
    argumentsFrom 0 [] [] (tokens ++ rest) = some (arguments, rest) ↔
      ∀ argument ∈ arguments, ∀ token ∈ argument, token.lexeme ≠ .keyword .fun_ := by
  have hmoves : ∀ argument ∈ arguments, Moves 1 0 0 argument :=
    fun argument hargument => (htypes argument hargument).moves.1
  constructor
  · intro hsplit argument hargument token htoken hfun
    have hcount : 0 < funs arguments.flatten := List.countP_pos_iff.2
      ⟨token, List.mem_flatten.2 ⟨argument, hargument, htoken⟩, by simpa using hfun⟩
    have hopen : 0 < 0 + 1 * funs arguments.flatten := by omega
    exact absurd (hlist.length_behind_lt hmoves hopen hsplit) (Nat.lt_irrefl rest.length)
  · intro hnone
    have hfuns : ∀ argument ∈ arguments, 1 * funs argument = 0 := by
      intro argument hargument
      rw [Nat.one_mul]
      exact List.countP_eq_zero.2 (by simpa using hnone argument hargument)
    exact hlist.argumentsFrom_eq hmoves hfuns
      (fun argument hargument => (htypes argument hargument).moves.2) rest

/-- The comma in the tuple ends no argument, and the tokens behind the list stay. -/
theorem argumentsFrom_of_types_sample :
    let pair := [Lexeme.punct .openBrace, .var "T", .punct .comma, .atom "ok",
      .punct .closeBrace].map (Token.mk · 1)
    let ints := [Lexeme.punct .openBracket, .atom "integer", .punct .openParen, .punct .closeParen,
      .punct .closeBracket].map (Token.mk · 2)
    let behind := [Lexeme.punct .bar, .atom "none"].map (Token.mk · 3)
    argumentsFrom 0 [] [] (pair ++ ⟨.punct .comma, 1⟩ :: (ints ++ [⟨.punct .closeParen, 2⟩]) ++
      behind) = some ([pair, ints], behind) := by
  intro pair ints behind
  refine (argumentsFrom_of_types (.more .last) (List.forall_mem_cons.2 ⟨?_, ?_⟩) behind).2 ?_
  · exact ⟨1, ⟨.dot, 1⟩, _, rfl, rfl⟩
  · exact List.forall_mem_singleton.2 ⟨1, ⟨.dot, 2⟩, _, rfl, rfl⟩
  · decide

/-- The type of all functions is not told apart even where it is the only argument. -/
theorem not_argumentsFrom_of_fun_type :
    ¬ ∀ (arguments : List (List Token)) (tokens rest : List Token),
      ArgumentList arguments tokens → (∀ argument ∈ arguments, TypeExpr.IsText argument) →
      argumentsFrom 0 [] [] (tokens ++ rest) = some (arguments, rest) := by
  intro hall
  let anyFun := [Lexeme.keyword .fun_, .punct .openParen, .punct .closeParen].map (Token.mk · 1)
  have htype : TypeExpr.IsText anyFun := ⟨1, ⟨.dot, 1⟩, _, rfl, rfl⟩
  have hsplit := hall [anyFun] (anyFun ++ [⟨.punct .closeParen, 1⟩]) [] .last
    (List.forall_mem_singleton.2 htype)
  cases hsplit

end Expansion

end HeaderForms
