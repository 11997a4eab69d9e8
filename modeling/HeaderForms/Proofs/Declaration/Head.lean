-- SUMMARY: The head read off the first tokens of a declaration is the one that the grammar reads.
import HeaderForms.Proofs.Declaration.Conversion
import HeaderForms.Proofs.Expr.Balance
import HeaderForms.Proofs.Token.Cut
import HeaderForms.Proofs.TypeExpr.Balance

/-!
# Heads of declarations

The grammar reads the head of a declaration in front of its body, so it can stop there. The reader
of heads knows no grammar: it skips what may stand in front of a name, and counts the commas between
arguments by the brackets around them. Types have their commas in brackets, and so have patterns
but for those in a block or in the clauses of a `fun`. So the two agree on the head whatever the
body is, and a body that the grammar refuses leaves a declaration under the head that it was given.
-/

namespace HeaderForms

/-- None of the tokens is a keyword that has an `end` of its own in an expression. -/
def Blockless (tokens : List Token) : Prop :=
  ∀ token ∈ tokens, ∀ word ∈ [Keyword.begin_, .case_, .if_, .fun_], token.lexeme ≠ .keyword word

instance : DecidablePred Blockless :=
  fun tokens => inferInstanceAs (Decidable (∀ token ∈ tokens,
    ∀ word ∈ [Keyword.begin_, .case_, .if_, .fun_], token.lexeme ≠ .keyword word))

theorem Blockless.of_append {tokens behind : List Token} (h : Blockless (tokens ++ behind)) :
    Blockless tokens ∧ Blockless behind :=
  List.forall_mem_append.1 h

theorem Blockless.of_cons {token : Token} {tokens : List Token} (h : Blockless (token :: tokens)) :
    (∀ word ∈ [Keyword.begin_, .case_, .if_, .fun_], token.lexeme ≠ .keyword word) ∧
      Blockless tokens :=
  List.forall_mem_cons.1 h

theorem Blockless.opensBlock_eq {token : Token} {tokens : List Token}
    (h : Blockless (token :: tokens)) : Nesting.opensBlock token.lexeme = false := by
  have hwords := h.of_cons.1
  unfold Nesting.opensBlock
  split
  case h_1 hword => exact absurd hword (hwords _ (by decide))
  case h_2 hword => exact absurd hword (hwords _ (by decide))
  case h_3 hword => exact absurd hword (hwords _ (by decide))
  case h_4 => rfl

namespace Head

open HeaderForms.Expansion (isNeutral closes)
open HeaderForms.Nesting (Nests bracketCloser?)

variable {grammar : Grammar} {before after : List Lexeme} {token : Token} {tokens rest : List Token}
  {closer : Lexeme} {depth commas : Nat}

/-! ## Counting along the nesting -/

theorem argumentsFrom_neutral (h : isNeutral token.lexeme = true) :
    argumentsFrom false depth commas (token :: rest) = argumentsFrom false depth commas rest := by
  obtain ⟨lexeme, line⟩ := token
  cases lexeme with
  | punct mark => cases mark <;> first | rfl | cases h
  | dot => cases h
  | _ => rfl

theorem argumentsFrom_keyword {word : Keyword} (h : token.lexeme = .keyword word) :
    argumentsFrom false depth commas (token :: rest) = argumentsFrom false depth commas rest := by
  rw [argumentsFrom, h]

theorem argumentsFrom_opening (h : bracketCloser? token.lexeme = some closer) :
    argumentsFrom false depth commas (token :: rest) =
      argumentsFrom false (depth + 1) commas rest := by
  obtain ⟨lexeme, line⟩ := token
  cases lexeme with
  | punct mark => cases mark <;> first | rfl | cases h
  | _ => cases h

theorem argumentsFrom_closing (h : closes token.lexeme = true)
    (hbracket : token.lexeme ≠ .keyword .end_) :
    argumentsFrom false (depth + 1) commas (token :: rest) =
      argumentsFrom false depth commas rest := by
  obtain ⟨lexeme, line⟩ := token
  cases lexeme with
  | punct mark => cases mark <;> first | rfl | cases h
  | keyword word => cases word <;> first | exact absurd rfl hbracket | cases h
  | _ => cases h

/-- Tokens without blocks are counted as they are nested, and no comma of theirs is between
arguments. -/
theorem argumentsFrom_nests (h : Nests grammar before after tokens)
    (hbefore : .keyword .end_ ∉ before) (hblockless : grammar = .expressions → Blockless tokens) :
    argumentsFrom false before.length commas (tokens ++ rest) =
      argumentsFrom false after.length commas rest := by
  induction h with
  | nil => rfl
  | plain hneutral _ ih =>
    rw [List.cons_append, argumentsFrom_neutral hneutral]
    exact ih hbefore fun hgrammar => (hblockless hgrammar).of_cons.2
  | comma _ ih => exact ih hbefore fun hgrammar => (hblockless hgrammar).of_cons.2
  | opening hcloser _ ih =>
    rw [List.cons_append, argumentsFrom_opening hcloser]
    have hinside : Lexeme.keyword .end_ ∉ _ :: _ :=
      List.not_mem_cons_of_ne_of_not_mem (Nesting.ne_end_of_bracketCloser? hcloser) hbefore
    exact ih hinside fun hgrammar => (hblockless hgrammar).of_cons.2
  | closing hcloses _ ih =>
    rw [List.mem_cons, not_or] at hbefore
    rw [List.cons_append, List.length_cons, argumentsFrom_closing hcloses (Ne.symm hbefore.1)]
    exact ih hbefore.2 fun hgrammar => (hblockless hgrammar).of_cons.2
  | block hblock =>
    rw [(hblockless rfl).opensBlock_eq] at hblock
    cases hblock
  | funName hfun => exact absurd hfun ((hblockless rfl).of_cons.1 _ (by decide))
  | funClauses hfun => exact absurd hfun ((hblockless rfl).of_cons.1 _ (by decide))
  | funType hfun _ _ ih =>
    rw [List.cons_append, argumentsFrom_keyword hfun]
    exact ih hbefore nofun

/-- Only a parenthesis that closes the list is another thing in front of the first argument. -/
theorem argumentsFrom_first (h : token.lexeme ≠ .punct .closeParen) :
    argumentsFrom true depth commas (token :: rest) =
      argumentsFrom false depth commas (token :: rest) := by
  obtain ⟨lexeme, line⟩ := token
  cases lexeme with
  | punct mark => cases mark <;> first | rfl | exact absurd rfl h
  | _ => rfl

/-! ## Counting what a parser takes -/

section Items

open HeaderForms.Parser

variable {α : Type} {item : Parser α} {limit : Nat} {items : List α}

/-- Behind the items the count is one below their number. -/
theorem exists_of_separatedFrom (hitem : Balanced grammar item) {found : List α}
    (hlimit : tokens.length < limit)
    (h : separatedFrom .comma item limit found tokens = .ok (items, rest)) :
    ∃ taken last, tokens = taken ++ rest ∧ items.length = last + 1 ∧
      ((grammar = .expressions → Blockless taken) → ∀ behind,
        argumentsFrom false 0 found.length (taken ++ behind) =
          argumentsFrom false 0 last behind) := by
  induction limit generalizing found tokens with
  | zero => exact absurd hlimit (Nat.not_lt_zero _)
  | succ limit ih =>
    obtain ⟨value, between, hvalue, heat⟩ := Parser.bind_eq_ok.1 h
    obtain ⟨eaten, behind, heaten, hmore⟩ := Parser.bind_eq_ok.1 heat
    obtain ⟨taken, rfl, hnests⟩ := hitem [] _ hvalue
    have hcount : ∀ commas, (grammar = .expressions → Blockless taken) → ∀ behind,
        argumentsFrom false 0 commas (taken ++ behind) = argumentsFrom false 0 commas behind :=
      fun _ hblockless _ => argumentsFrom_nests hnests (List.not_mem_nil) hblockless
    cases eaten with
    | false =>
      obtain rfl := eq_of_eat heaten
      cases hmore
      exact ⟨taken, found.length, rfl, by simp, hcount found.length⟩
    | true =>
      obtain ⟨line, rfl⟩ := exists_of_eat heaten
      have hshorter : behind.length < limit := by
        simp only [List.length_append, List.length_cons] at hlimit
        omega
      obtain ⟨taken', last, rfl, hlast, hcount'⟩ := ih hshorter hmore
      refine ⟨taken ++ ⟨.punct .comma, line⟩ :: taken', last, by simp, hlast, ?_⟩
      intro hblockless other
      rw [List.append_assoc, hcount _ fun hgrammar => (hblockless hgrammar).of_append.1]
      exact hcount' (fun hgrammar => (hblockless hgrammar).of_append.2.of_cons.2) other

/-- As many arguments are counted as the parser of a list in parentheses answers with, whatever is
behind the list. -/
theorem exists_of_arguments (hitem : Balanced grammar item) (hlimit : tokens.length < limit)
    (h : (do expectPunct .openParen; delimited limit .closeParen item : Parser (List α)) tokens =
      .ok (items, rest)) :
    ∃ line taken, tokens = ⟨.punct .openParen, line⟩ :: (taken ++ rest) ∧
      ((grammar = .expressions → Blockless taken) → ∀ behind,
        arguments? (⟨.punct .openParen, line⟩ :: (taken ++ behind)) = some items.length) := by
  obtain ⟨_, inside, hopen, hdelimited⟩ := Parser.bind_eq_ok.1 h
  obtain ⟨line, rfl⟩ := exists_of_expectPunct hopen
  obtain ⟨isEmpty, more, heat, hitems⟩ := Parser.bind_eq_ok.1 hdelimited
  cases isEmpty with
  | true =>
    obtain ⟨closeLine, rfl⟩ := exists_of_eat heat
    cases hitems
    exact ⟨line, [⟨.punct .closeParen, closeLine⟩], rfl, fun _ _ => rfl⟩
  | false =>
    obtain rfl := eq_of_eat heat
    obtain ⟨found, between, hfound, hclose⟩ := Parser.bind_eq_ok.1 hitems
    obtain ⟨_, _, hparen, hdone⟩ := Parser.bind_eq_ok.1 hclose
    cases hdone
    obtain ⟨closeLine, rfl⟩ := exists_of_expectPunct hparen
    obtain ⟨taken, last, rfl, hlast, hcount⟩ :=
      exists_of_separatedFrom hitem (Nat.lt_of_succ_lt hlimit) hfound
    refine ⟨line, taken ++ [⟨.punct .closeParen, closeLine⟩], by simp, fun hblockless behind => ?_⟩
    have hfirst : argumentsFrom true 0 0 (taken ++ ⟨.punct .closeParen, closeLine⟩ :: behind) =
        argumentsFrom false 0 0 (taken ++ ⟨.punct .closeParen, closeLine⟩ :: behind) := by
      cases taken with
      | nil => cases heat
      | cons token taken => exact argumentsFrom_first (ne_of_eat heat)
    have hblockless' : grammar = .expressions → Blockless taken :=
      fun hgrammar => (hblockless hgrammar).of_append.1
    rw [List.append_assoc]
    calc argumentsFrom true 0 0 (taken ++ ⟨.punct .closeParen, closeLine⟩ :: behind)
      _ = argumentsFrom false 0 0 (taken ++ ⟨.punct .closeParen, closeLine⟩ :: behind) := hfirst
      _ = argumentsFrom false 0 last (⟨.punct .closeParen, closeLine⟩ :: behind) :=
        hcount hblockless' _
      _ = some items.length := by rw [hlast]; rfl

end Items

end Head

/-! ## Heads in the grammar -/

namespace Parser

variable {limit : Nat}

/-- The head of a specification behind its name, which may follow a module name. -/
def specHead (limit : Nat) (name : String) : Parser Head := do
  let args ← typeArguments limit (typeWithin limit)
  return ⟨.spec, name, args.length⟩

/-- The head of an attribute in front of its body. Lists of functions have none. -/
def attributeHead (limit : Nat) (name : String) : Parser Head :=
  match name with
  | "record" => do
    expectPunct .openParen
    return ⟨.record, ← expectAtom, 0⟩
  | "type" => do return ⟨.type, ← expectAtom, 0⟩
  | "opaque" => do return ⟨.opaqueType, ← expectAtom, 0⟩
  | "spec" => do
    let first ← expectAtom
    let name ← if ← eatPunct .colon then expectAtom else pure first
    specHead limit name
  | "export" => unexpected .declaration
  | "import" => unexpected .declaration
  | name => return ⟨.attribute, name, 0⟩

def functionHead (limit : Nat) : Parser Head := do
  let name ← expectAtom
  let patterns ← arguments limit (exprWithin limit)
  return ⟨.function, name, patterns.length⟩

/-- The head of a declaration in front of its body. -/
def head (limit : Nat) : Parser Head := do
  if ← eatPunct .minus then
    let name ← takeAny .expectedAttributeName attributeName?
    let _ ← if mayBeWrapped name then openWrap else pure false
    attributeHead limit name
  else functionHead limit

/-- The tokens of the head of a declaration. Those of a function are its name and, in parentheses,
the arguments of its first clause. -/
def headTokens (tokens : List Token) : List Token :=
  taken (head (tokens.length + 1)) tokens

/-! ### Declarations cut behind their heads -/

theorem cuts_recordDecl :
    Cuts (attributeHead limit "record") (recordDecl limit) Declaration.head? :=
  .bind fun _ => .bind fun _ => cuts_pure <| yields_any.bind fun _ _ => yields_any.bind fun _ _ =>
    yields_any.bind fun _ _ => yields_any.bind fun _ _ => yields_pure rfl

theorem cuts_typeDecl {declare : String → List String → TypeExpr → Declaration}
    {kind : DeclarationKind}
    (h : ∀ name params definition, (declare name params definition).head? = some ⟨kind, name, 0⟩) :
    Cuts (do return ⟨kind, ← expectAtom, 0⟩) (typeDecl limit declare) Declaration.head? :=
  .bind fun name => cuts_pure <| yields_any.bind fun _ _ => yields_any.bind fun _ _ =>
    yields_any.bind fun _ _ => yields_any.bind fun _ _ => yields_pure (h name _ _)

theorem cuts_signature {name : String} :
    Cuts (specHead limit name) (signature limit) fun signature =>
      some ⟨.spec, name, signature.args.length⟩ := by
  refine .bind fun args => cuts_pure <| yields_any.bind fun _ _ => yields_any.bind fun _ _ => ?_
  exact yields_any.bind fun _ _ => .ite (yields_any.bind fun _ _ => yields_pure rfl)
    (yields_any.bind fun _ _ => yields_pure rfl)

/-- The arity of a specification is that of its first signature. -/
theorem cuts_specDecl (hlimit : 0 < limit) :
    Cuts (attributeHead limit "spec") (specDecl limit) Declaration.head? := by
  have hsignatures : ∀ name, Cuts (specHead limit name) (do
      let signatures ← separated limit .semicolon (signature limit)
      let arity := (signatures.head?.map (·.args.length)).getD 0
      if signatures.any (·.args.length != arity) then fail (.mixedArities name)
      return Declaration.spec name arity signatures) Declaration.head? := by
    intro name
    refine Cuts.before (cuts_signature.separated hlimit ?_) fun signatures =>
      .unless (yields_pure rfl)
    intro first signatures hfirst
    simp only [hfirst]
    rfl
  refine .bind fun first => .bind fun isRemote => .ite ?_ (hsignatures first)
  exact .bind fun name => hsignatures name

theorem cuts_attributeBody (hlimit : 0 < limit) (name : String) :
    Cuts (attributeHead limit name) (attributeBody limit name) Declaration.head? := by
  unfold attributeBody
  split
  case h_1 => exact cuts_recordDecl
  case h_2 => exact cuts_typeDecl fun _ _ _ => rfl
  case h_3 => exact cuts_typeDecl fun _ _ _ => rfl
  case h_4 => exact cuts_specDecl hlimit
  case h_5 => exact cuts_none <| yields_any.bind fun _ _ => yields_any.bind fun _ _ =>
      yields_any.bind fun _ _ => yields_pure rfl
  case h_6 => exact cuts_none <| yields_any.bind fun _ _ => yields_any.bind fun _ _ =>
      yields_any.bind fun _ _ => yields_any.bind fun _ _ => yields_any.bind fun _ _ =>
      yields_pure rfl
  case h_7 =>
    have hhead : attributeHead limit name = pure ⟨.attribute, name, 0⟩ := by
      unfold attributeHead
      split <;> first | rfl | contradiction
    rw [hhead]
    exact cuts_pure (yields_any.map fun _ _ => rfl)

/-- Each clause has the name of the function. -/
theorem cuts_namedClause {name : String} :
    Cuts (functionHead limit) (namedClause limit name) fun clause =>
      some ⟨.function, name, clause.patterns.length⟩ := by
  refine .bind fun found => ?_
  by_cases hname : found = name
  · subst hname
    rw [if_neg (not_not_intro rfl)]
    refine .bind fun patterns => cuts_pure ?_
    have hrest : ∀ guards, Yields (do
        expectPunct .arrow
        return Clause.mk patterns guards (← exprs limit (exprWithin limit)))
        fun clause => clause.patterns = patterns :=
      fun guards => yields_any.bind fun _ _ => yields_any.bind fun _ _ => yields_pure rfl
    have hclause : Yields (clauseRest limit (exprWithin limit) patterns)
        fun clause => clause.patterns = patterns :=
      yields_any.bind fun _ _ => .ite (yields_any.bind fun guards _ => hrest guards) (hrest [])
    exact hclause.mono fun clause hpatterns => by rw [hpatterns]
  · rw [if_pos hname]
    exact cuts_none yields_failed

/-- The arity of a function is that of its first clause. -/
theorem cuts_functionDecl (hlimit : 0 < limit) :
    Cuts (functionHead limit) (functionDecl limit) Declaration.head? := by
  refine .peek fun ahead => ?_
  split
  case h_1 name =>
    refine Cuts.before (cuts_namedClause.separated hlimit ?_) fun clauses =>
      .unless (yields_pure rfl)
    intro first clauses hfirst
    simp only [hfirst]
    rfl
  case h_2 => exact cuts_none yields_unexpected

theorem cuts_declaration (hlimit : 0 < limit) :
    Cuts (head limit) (declaration limit) Declaration.head? := by
  have hbody : ∀ name, ∀ wrapped : Bool, Cuts (attributeHead limit name) (do
      let declaration ← attributeBody limit name
      if wrapped then expectPunct .closeParen
      return declaration) Declaration.head? :=
    fun name wrapped => (cuts_attributeBody hlimit name).before fun _ =>
      .ite (yields_any.bind fun _ _ => yields_pure rfl) (yields_pure rfl)
  have hattribute : Cuts (do
      let name ← takeAny .expectedAttributeName attributeName?
      let _ ← if mayBeWrapped name then openWrap else pure false
      attributeHead limit name) (attributeDecl limit) Declaration.head? :=
    .bind fun name => .ite (.bind fun wrapped => hbody name wrapped) (hbody name false)
  have hend : ∀ declaration : Declaration, Yields (do
      expectEnd
      return declaration) fun last => last.head? = declaration.head? :=
    fun _ => yields_any.bind fun _ _ => yields_pure rfl
  exact .bind fun isAttribute =>
    .ite (hattribute.before hend) ((cuts_functionDecl hlimit).before hend)

end Parser

/-! ## The two readings of a head -/

namespace Head

open HeaderForms.Parser

variable {limit : Nat} {found : Head} {name : String} {tokens body rest : List Token}

/-- The head of the attribute of that name, read off the tokens behind it and behind a parenthesis
in front of them. -/
def ofAttribute (name : String) (body : List Token) : Option Head :=
  match name with
  | "export" => none
  | "import" => none
  | "record" => named .record body
  | "type" => named .type body
  | "opaque" => named .opaqueType body
  | "spec" => ofSpec body
  | name => some ⟨.attribute, name, 0⟩

/-- The tokens behind a parenthesis if there is one. -/
def unwrapped (body : List Token) : List Token :=
  if body.head?.any (·.isPunct .openParen) then body.tail else body

theorem ofTokens_attribute {lexeme : Lexeme} (h : Parser.attributeName? lexeme = some name)
    (minusLine line : Nat) (body : List Token) :
    ofTokens (⟨.punct .minus, minusLine⟩ :: ⟨lexeme, line⟩ :: body) =
      ofAttribute name (unwrapped body) := by
  cases lexeme with
  | atom | keyword =>
    cases h
    rfl
  | _ => cases h

theorem exists_of_openWrap {wrapped : Bool} (h : openWrap tokens = .ok (wrapped, rest)) :
    tokens = rest ∨ ∃ line, tokens = ⟨.punct .openParen, line⟩ :: rest := by
  obtain ⟨ahead, behind, hpeek, hrest⟩ := Parser.bind_eq_ok.1 h
  obtain ⟨hahead, rfl⟩ := Prod.mk.inj (Except.ok.inj hpeek)
  split at hrest
  case h_1 | h_3 =>
    cases hrest
    exact .inl rfl
  case h_2 =>
    cases tokens with
    | nil => cases hahead
    | cons token tokens =>
      obtain ⟨lexeme, line⟩ := token
      obtain rfl : lexeme = .punct .openParen := Option.some.inj (Prod.mk.inj hahead).1
      cases hrest
      exact .inr ⟨line, rfl⟩

theorem exists_of_specHead (hlimit : tokens.length < limit)
    (h : specHead limit name tokens = .ok (found, body)) :
    ∃ line inside, tokens = ⟨.punct .openParen, line⟩ :: (inside ++ body) ∧ ∀ behind atomLine,
      applied .spec (⟨.atom name, atomLine⟩ :: ⟨.punct .openParen, line⟩ :: (inside ++ behind)) =
        some found := by
  obtain ⟨args, _, hargs, hdone⟩ := Parser.bind_eq_ok.1 h
  cases hdone
  obtain ⟨line, inside, rfl, hcount⟩ := exists_of_arguments (balanced_typeWithin limit) hlimit hargs
  refine ⟨line, inside, rfl, fun behind atomLine => ?_⟩
  simp [applied, hcount nofun behind, atomName?]

theorem exists_of_namedHead {kind : DeclarationKind}
    (h : (do return ⟨kind, ← expectAtom, 0⟩ : Parser Head) tokens = .ok (found, body)) :
    ∃ line, tokens = ⟨.atom found.name, line⟩ :: body ∧
      ∀ behind, named kind (⟨.atom found.name, line⟩ :: behind) = some found := by
  obtain ⟨name, _, hname, hdone⟩ := Parser.bind_eq_ok.1 h
  cases hdone
  obtain ⟨line, rfl⟩ := exists_of_expectAtom hname
  exact ⟨line, rfl, fun _ => rfl⟩

/-- A colon behind the first name is looked for where the arguments would begin. -/
theorem exists_of_spec (hlimit : tokens.length < limit)
    (h : attributeHead limit "spec" tokens = .ok (found, body)) :
    ∃ first line front, tokens = ⟨.atom first, line⟩ :: (front ++ body) ∧
      ∀ behind, ofSpec (⟨.atom first, line⟩ :: (front ++ behind)) = some found := by
  obtain ⟨first, _, hfirst, hrest⟩ := Parser.bind_eq_ok.1 h
  obtain ⟨isRemote, _, hcolon, hrest⟩ := Parser.bind_eq_ok.1 hrest
  obtain ⟨line, rfl⟩ := exists_of_expectAtom hfirst
  cases isRemote with
  | true =>
    obtain ⟨name, _, hname, hargs⟩ := Parser.bind_eq_ok.1 hrest
    obtain ⟨colonLine, rfl⟩ := exists_of_eat hcolon
    obtain ⟨nameLine, rfl⟩ := exists_of_expectAtom hname
    simp only [List.length_cons] at hlimit
    obtain ⟨openLine, inside, rfl, hread⟩ := exists_of_specHead (by omega) hargs
    exact ⟨first, line, ⟨.punct .colon, colonLine⟩ :: ⟨.atom name, nameLine⟩ ::
      ⟨.punct .openParen, openLine⟩ :: inside, rfl, fun behind => hread behind nameLine⟩
  | false =>
    obtain rfl := eq_of_eat hcolon
    obtain ⟨openLine, inside, rfl, hread⟩ := exists_of_specHead (Nat.lt_of_succ_lt hlimit) hrest
    exact ⟨first, line, ⟨.punct .openParen, openLine⟩ :: inside, rfl, fun behind =>
      hread behind line⟩

/-- The tokens of the head of an attribute are all that the reader needs of it. An attribute that
may be wrapped begins with a name, which the reader does not take for its parenthesis. -/
theorem exists_of_attributeHead (hlimit : tokens.length < limit)
    (h : attributeHead limit name tokens = .ok (found, body)) :
    ∃ front, tokens = front ++ body ∧ ∀ behind,
      ofAttribute name (unwrapped (front ++ behind)) = some found ∧
      (mayBeWrapped name = true → unwrapped (front ++ behind) = front ++ behind) := by
  unfold attributeHead at h
  split at h
  case h_1 =>
    have hunwrapped : mayBeWrapped "record" = false := by decide
    obtain ⟨_, between, hopen, hrest⟩ := Parser.bind_eq_ok.1 h
    obtain ⟨openLine, rfl⟩ := exists_of_expectPunct hopen
    obtain ⟨line, rfl, hread⟩ := exists_of_namedHead hrest
    refine ⟨[⟨.punct .openParen, openLine⟩, ⟨.atom found.name, line⟩], rfl, fun behind => ?_⟩
    exact ⟨hread behind, fun hwrapped => absurd (hunwrapped.symm.trans hwrapped) nofun⟩
  case h_2 | h_3 =>
    obtain ⟨line, rfl, hread⟩ := exists_of_namedHead h
    exact ⟨[⟨.atom found.name, line⟩], rfl, fun behind => ⟨hread behind, fun _ => rfl⟩⟩
  case h_4 =>
    obtain ⟨first, line, front, rfl, hread⟩ := exists_of_spec hlimit h
    exact ⟨⟨.atom first, line⟩ :: front, rfl, fun behind => ⟨hread behind, fun _ => rfl⟩⟩
  case h_5 | h_6 => cases h
  case h_7 hrecord htype hopaque hspec hexport himport =>
    cases h
    refine ⟨[], rfl, fun behind => ⟨?_, fun hwrapped => ?_⟩⟩
    · unfold ofAttribute
      split <;> first | rfl | contradiction
    · rcases (by simpa [mayBeWrapped] using hwrapped) with (heq | heq) | heq
      · exact absurd heq hspec
      · exact absurd heq htype
      · exact absurd heq hopaque

theorem exists_of_wrappedHead (hlimit : tokens.length < limit)
    (h : (do
      let _ ← if mayBeWrapped name then openWrap else pure false
      attributeHead limit name : Parser Head) tokens = .ok (found, body)) :
    ∃ front, tokens = front ++ body ∧
      ∀ behind, ofAttribute name (unwrapped (front ++ behind)) = some found := by
  split at h
  case isFalse =>
    obtain ⟨front, rfl, hread⟩ := exists_of_attributeHead hlimit h
    exact ⟨front, rfl, fun behind => (hread behind).1⟩
  case isTrue hwrapped =>
    obtain ⟨wrapped, inside, hwrap, hhead⟩ := Parser.bind_eq_ok.1 h
    rcases exists_of_openWrap hwrap with rfl | ⟨openLine, rfl⟩
    · obtain ⟨front, rfl, hread⟩ := exists_of_attributeHead hlimit hhead
      exact ⟨front, rfl, fun behind => (hread behind).1⟩
    · obtain ⟨front, rfl, hread⟩ := exists_of_attributeHead (Nat.lt_of_succ_lt hlimit) hhead
      refine ⟨⟨.punct .openParen, openLine⟩ :: front, rfl, fun behind => ?_⟩
      calc ofAttribute name (front ++ behind)
        _ = ofAttribute name (unwrapped (front ++ behind)) := by rw [(hread behind).2 hwrapped]
        _ = some found := (hread behind).1

/-- The tokens of the head in the grammar are all that the reader needs. -/
theorem exists_of_head (hlimit : tokens.length < limit)
    (h : Parser.head limit tokens = .ok (found, body)) :
    ∃ front, tokens = front ++ body ∧
      ((found.kind = .function → Blockless front) →
        ∀ behind, ofTokens (front ++ behind) = some found) := by
  obtain ⟨isAttribute, _, hminus, hrest⟩ := Parser.bind_eq_ok.1 h
  cases isAttribute with
  | true =>
    obtain ⟨minusLine, rfl⟩ := exists_of_eat hminus
    obtain ⟨name, _, hname, hhead⟩ := Parser.bind_eq_ok.1 hrest
    obtain ⟨⟨lexeme, line⟩, rfl, hlexeme⟩ := exists_of_takeAny hname
    simp only [List.length_cons] at hlimit
    obtain ⟨front, rfl, hread⟩ := exists_of_wrappedHead (by omega) hhead
    refine ⟨⟨.punct .minus, minusLine⟩ :: ⟨lexeme, line⟩ :: front, rfl, fun _ behind => ?_⟩
    exact (ofTokens_attribute hlexeme ..).trans (hread behind)
  | false =>
    obtain rfl := eq_of_eat hminus
    obtain ⟨name, _, hname, hargs⟩ := Parser.bind_eq_ok.1 hrest
    obtain ⟨patterns, _, hpatterns, hdone⟩ := Parser.bind_eq_ok.1 hargs
    cases hdone
    obtain ⟨line, rfl⟩ := exists_of_expectAtom hname
    obtain ⟨openLine, inside, rfl, hcount⟩ :=
      exists_of_arguments (balanced_exprWithin limit) (Nat.lt_of_succ_lt hlimit) hpatterns
    refine ⟨⟨.atom name, line⟩ :: ⟨.punct .openParen, openLine⟩ :: inside, rfl, ?_⟩
    intro hblockless behind
    have hinside : Blockless inside := (hblockless rfl).of_cons.2.of_cons.2
    simp [ofTokens, applied, atomName?, hcount (fun _ => hinside) behind, Token.isPunct]

end Head

/-- The head of a declaration that the grammar reads is the one that is read off its first tokens.
So any tokens that begin with those of the head, if the grammar refuses what is behind them, leave
an unsupported declaration of that kind, name and arity, and a warning under them. -/
theorem Head.ofTokens_eq_of_declaration {tokens : List Token} {declaration : Declaration}
    {head : Head} (hread : Declaration.ofTokens tokens = .ok declaration)
    (hhead : declaration.head? = some head)
    (hblockless : head.kind = .function → Blockless (Parser.headTokens tokens)) :
    Head.ofTokens tokens = some head ∧
      (∃ body, tokens = Parser.headTokens tokens ++ body ∧
        Parser.head (tokens.length + 1) tokens = .ok (head, body)) ∧
      ∀ other error, Parser.headTokens tokens <+: other →
        (Parser.declaration (other.length + 1)).parse other = .error error →
        Declaration.ofTokens other = .ok (.unsupported head error) ∧
          ∀ typedRecords, (Declaration.unsupported head error).outcome typedRecords =
            .dropped (.declaration head (.source error)) := by
  rcases Declaration.parsed_or_unsupported hread with ⟨_, hparsed⟩ | ⟨_, _, rfl⟩
  case inr => cases hhead
  obtain ⟨body, hbody⟩ := Parser.cuts_declaration (Nat.succ_pos _) hparsed hhead
  obtain ⟨front, hfront, hreader⟩ := Head.exists_of_head (Nat.lt_succ_self _) hbody
  have htaken : Parser.headTokens tokens = front := Parser.taken_eq hbody hfront
  rw [htaken] at hblockless ⊢
  refine ⟨?_, ⟨body, hfront, hbody⟩, ?_⟩
  · rw [hfront]
    exact hreader hblockless body
  · rintro _ error ⟨behind, rfl⟩ hrefused
    have hother : Head.ofTokens (front ++ behind) = some head := hreader hblockless behind
    exact ⟨by simp only [Declaration.ofTokens, hrefused, hother], fun _ => rfl⟩

/-- The commas in the braces do not count. -/
theorem Head.ofTokens_eq_of_declaration_sample :
    let front := [Lexeme.atom "f", .punct .openParen, .var "X", .punct .comma, .punct .openBrace,
      .var "Y", .punct .comma, .var "Z", .punct .closeBrace, .punct .closeParen].map (Token.mk · 1)
    let body := [Lexeme.punct .arrow, .atom "ok", .dot].map (Token.mk · 2)
    let receiving := [Lexeme.punct .arrow, .keyword .receive, .dot].map (Token.mk · 2)
    Head.ofTokens (front ++ body) = some ⟨.function, "f", 2⟩ ∧
      Declaration.ofTokens (front ++ receiving) =
        .ok (.unsupported ⟨.function, "f", 2⟩ ⟨2, .unsupportedExpression .receive⟩) := by
  intro front body receiving
  have hread : Declaration.ofTokens (front ++ body) =
      .ok (.function "f" 2 [.mk [.var "X", .tuple [.var "Y", .var "Z"]] [] [.atom "ok"]]) := rfl
  obtain ⟨hhead, -, hother⟩ := Head.ofTokens_eq_of_declaration hread rfl (by decide)
  exact ⟨hhead, (hother (front ++ receiving) _ ⟨receiving, rfl⟩ rfl).1⟩

/-- The comma in a block does. -/
example : Head.ofTokens ([Lexeme.atom "f", .punct .openParen, .keyword .begin_, .var "X",
    .punct .comma, .var "Y", .keyword .end_, .punct .closeParen].map (Token.mk · 1)) =
      some ⟨.function, "f", 2⟩ := by decide

end HeaderForms
