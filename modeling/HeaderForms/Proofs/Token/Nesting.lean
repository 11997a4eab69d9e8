-- SUMMARY: Nesting of tokens: what is open between them, and what closes it.
import HeaderForms.Proofs.Macro.Arguments

/-!
# Nesting of tokens

Brackets are closed by brackets of their kind, and `begin`, `case`, `if` and the clauses of a `fun`
by `end`. What is open at a place is a stack of the lexemes that will close it, the innermost first.
Tokens lead from one stack to another, and the two scanners that look for commas between arguments
count the same tokens in ways of their own: one counts brackets, the other keywords as well.

A `fun` in front of a parenthesis begins clauses in an expression and a type in a type, and no `end`
comes behind a type.
-/

namespace HeaderForms

/-- The grammar that tokens are of. -/
inductive Grammar where
  | expressions | types
deriving DecidableEq, Repr

/-- The levels that a `fun` of the grammar leaves open in front of a parenthesis. -/
def Grammar.kept : Grammar → Nat
  | .expressions => 0
  | .types => 1

namespace Nesting

open Expansion (isNeutral opens closes)

/-! ## Brackets -/

/-- What closes a bracket. -/
def bracketCloser? : Lexeme → Option Lexeme
  | .punct .openParen => some (.punct .closeParen)
  | .punct .openBracket => some (.punct .closeBracket)
  | .punct .openBrace => some (.punct .closeBrace)
  | .punct .openBinary => some (.punct .closeBinary)
  | _ => none

/-- A keyword that opens a block whatever follows it. -/
def opensBlock : Lexeme → Bool
  | .keyword .begin_ | .keyword .case_ | .keyword .if_ => true
  | _ => false

variable {lexeme closer : Lexeme}

theorem opens_of_bracketCloser? (h : bracketCloser? lexeme = some closer) :
    opens lexeme none = true := by
  unfold bracketCloser? at h
  split at h <;> first | rfl | cases h

theorem ne_end_of_bracketCloser? (h : bracketCloser? lexeme = some closer) :
    .keyword .end_ ≠ closer := by
  unfold bracketCloser? at h
  split at h <;> cases h <;> exact Lexeme.noConfusion

theorem opens_of_opensBlock (h : opensBlock lexeme = true) : opens lexeme none = true := by
  unfold opensBlock at h
  split at h <;> first | rfl | cases h

/-! ## Nesting -/

/-- The tokens of a grammar lead from what is open in front of them to what is open behind. A comma
stands inside a bracket or a block. -/
inductive Nests : Grammar → List Lexeme → List Lexeme → List Token → Prop where
  | nil {grammar : Grammar} {stack : List Lexeme} : Nests grammar stack stack []
  | plain {grammar : Grammar} {stack final : List Lexeme} {token : Token} {tokens : List Token}
    (hneutral : isNeutral token.lexeme = true) (hrest : Nests grammar stack final tokens) :
    Nests grammar stack final (token :: tokens)
  | comma {grammar : Grammar} {stack final : List Lexeme} {closer : Lexeme} {line : Nat}
    {tokens : List Token} (hrest : Nests grammar (closer :: stack) final tokens) :
    Nests grammar (closer :: stack) final (⟨.punct .comma, line⟩ :: tokens)
  | opening {grammar : Grammar} {stack final : List Lexeme} {token : Token} {tokens : List Token}
    {closer : Lexeme} (hcloser : bracketCloser? token.lexeme = some closer)
    (hrest : Nests grammar (closer :: stack) final tokens) :
    Nests grammar stack final (token :: tokens)
  | closing {grammar : Grammar} {stack final : List Lexeme} {token : Token} {tokens : List Token}
    (hcloses : closes token.lexeme = true) (hrest : Nests grammar stack final tokens) :
    Nests grammar (token.lexeme :: stack) final (token :: tokens)
  | block {stack final : List Lexeme} {token : Token} {tokens : List Token}
    (hblock : opensBlock token.lexeme = true)
    (hrest : Nests .expressions (.keyword .end_ :: stack) final tokens) :
    Nests .expressions stack final (token :: tokens)
  | funName {stack final : List Lexeme} {token next : Token} {tokens : List Token}
    (hfun : token.lexeme = .keyword .fun_) (hnext : next.lexeme ≠ .punct .openParen)
    (hrest : Nests .expressions stack final (next :: tokens)) :
    Nests .expressions stack final (token :: next :: tokens)
  | funClauses {stack final : List Lexeme} {token paren : Token} {tokens : List Token}
    (hfun : token.lexeme = .keyword .fun_) (hparen : paren.lexeme = .punct .openParen)
    (hrest : Nests .expressions (.keyword .end_ :: stack) final (paren :: tokens)) :
    Nests .expressions stack final (token :: paren :: tokens)
  | funType {stack final : List Lexeme} {token paren : Token} {tokens : List Token}
    (hfun : token.lexeme = .keyword .fun_) (hparen : paren.lexeme = .punct .openParen)
    (hrest : Nests .types stack final (paren :: tokens)) :
    Nests .types stack final (token :: paren :: tokens)

variable {grammar : Grammar} {stack before between after : List Lexeme}
  {tokens behind : List Token}

theorem Nests.append (h : Nests grammar before between tokens)
    (h' : Nests grammar between after behind) : Nests grammar before after (tokens ++ behind) := by
  induction h with
  | nil => exact h'
  | plain hneutral _ ih => exact .plain hneutral (ih h')
  | comma _ ih => exact .comma (ih h')
  | opening hcloser _ ih => exact .opening hcloser (ih h')
  | closing hcloses _ ih => exact .closing hcloses (ih h')
  | block hblock _ ih => exact .block hblock (ih h')
  | funName hfun hnext _ ih => exact .funName hfun hnext (ih h')
  | funClauses hfun hparen _ ih => exact .funClauses hfun hparen (ih h')
  | funType hfun hparen _ ih => exact .funType hfun hparen (ih h')

/-- Without tokens nothing is opened or closed. -/
theorem Nests.eq_of_nil (h : Nests grammar before after []) : before = after := by
  cases h
  rfl

theorem nests_neutral (h : ∀ token ∈ tokens, isNeutral token.lexeme = true) :
    Nests grammar stack stack tokens := by
  induction tokens with
  | nil => exact .nil
  | cons token tokens ih =>
    obtain ⟨htoken, htokens⟩ := List.forall_mem_cons.1 h
    exact .plain htoken (ih htokens)

/-! ## Single lexemes -/

/-- The lexeme leads from one stack to the other, on any line. -/
def Steps (grammar : Grammar) (before after : List Lexeme) (lexeme : Lexeme) : Prop :=
  ∀ line, Nests grammar before after [⟨lexeme, line⟩]

theorem steps_neutral (h : isNeutral lexeme = true) : Steps grammar stack stack lexeme :=
  fun _ => .plain h .nil

theorem steps_comma : Steps grammar (closer :: stack) (closer :: stack) (.punct .comma) :=
  fun _ => .comma .nil

theorem steps_opening (h : bracketCloser? lexeme = some closer) :
    Steps grammar stack (closer :: stack) lexeme :=
  fun _ => .opening h .nil

theorem steps_closing (h : closes lexeme = true) : Steps grammar (lexeme :: stack) stack lexeme :=
  fun line => @Nests.closing grammar stack stack ⟨lexeme, line⟩ [] h .nil

theorem steps_block (h : opensBlock lexeme = true) :
    Steps .expressions stack (.keyword .end_ :: stack) lexeme :=
  fun _ => .block h .nil

/-! ## Arguments of macro uses -/

/-- To the scan for arguments of a macro use every level counts as one. -/
theorem Nests.moves (h : Nests grammar before after tokens) :
    Expansion.Moves grammar.kept before.length after.length tokens := by
  induction h with
  | nil => exact Expansion.moves_nil
  | @plain _ _ _ token _ hneutral _ ih =>
    exact (Expansion.steps_neutral hneutral token.line).append ih
  | @comma _ _ _ _ line _ _ ih => exact (Expansion.steps_comma line).append ih
  | @opening _ _ _ token _ _ hcloser _ ih =>
    exact (Expansion.steps_opening (opens_of_bracketCloser? hcloser) token.line).append ih
  | @closing _ _ _ token _ hcloses _ ih =>
    exact (Expansion.steps_closing hcloses token.line).append ih
  | @block _ _ token _ hblock _ ih =>
    exact (Expansion.steps_opening (opens_of_opensBlock hblock) token.line).append ih
  | funName hfun hnext _ ih => exact ih.fun_name hfun hnext
  | funClauses hfun hparen _ ih => exact ih.fun_paren hfun hparen
  | funType hfun hparen _ ih => exact (ih.above 1).fun_paren hfun hparen

end Nesting

end HeaderForms
