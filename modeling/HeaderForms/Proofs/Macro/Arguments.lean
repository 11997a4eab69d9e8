-- SUMMARY: How the arguments of a macro use are told apart: the depth along runs of tokens.
import HeaderForms.Proofs.Macro.Expansion
import HeaderForms.Proofs.Token.Parser

/-!
# Arguments of macro uses

The arguments of a use are cut at the commas of depth 0, and the depth is one number for brackets
and keywords of every kind. A run of tokens moves the depth by what it opens and closes, whatever
stands around it, so a run that comes back to its depth is inside one argument.

A `fun` in front of a parenthesis opens a level of its own. In an expression it has an `end` that
closes it, and in a type it has none. So the depth behind a run also depends on how many levels each
`fun` in it leaves open, which is none for the tokens of expressions and one for those of types.
-/

namespace HeaderForms

namespace Expansion

/-! ## Lists of arguments -/

/-- `ArgumentList arguments tokens` says that `tokens` are the arguments with commas between them
and a closing parenthesis behind the last. -/
inductive ArgumentList : List (List Token) → List Token → Prop where
  | last {argument : List Token} {line : Nat} :
      ArgumentList [argument] (argument ++ [⟨.punct .closeParen, line⟩])
  | more {argument tokens : List Token} {arguments : List (List Token)} {line : Nat} :
      ArgumentList arguments tokens →
      ArgumentList (argument :: arguments) (argument ++ ⟨.punct .comma, line⟩ :: tokens)

/-! ## Depths -/

def funs (tokens : List Token) : Nat :=
  tokens.countP (·.lexeme = .keyword .fun_)

@[simp]
theorem funs_append (tokens behind : List Token) :
    funs (tokens ++ behind) = funs tokens + funs behind :=
  List.countP_append

theorem funs_cons_of_fun {token : Token} (h : token.lexeme = .keyword .fun_) (tokens : List Token) :
    funs (token :: tokens) = funs tokens + 1 :=
  List.countP_cons_of_pos (by simpa using h)

theorem funs_singleton_of_ne {token : Token} (h : token.lexeme ≠ .keyword .fun_) :
    funs [token] = 0 :=
  List.countP_eq_zero.2 (by simpa using h)

/-- The tokens take the depth from `before` to `after` above any base, and each `fun` among them
leaves `kept` levels open besides. None of them ends an argument. -/
def Moves (kept before after : Nat) (tokens : List Token) : Prop :=
  ∀ base current done rest, argumentsFrom (base + before) current done (tokens ++ rest) =
    argumentsFrom (base + after + kept * funs tokens) (tokens.reverse ++ current) done rest

variable {kept before between after depth : Nat} {tokens behind : List Token}

theorem moves_nil : Moves kept depth depth [] := by
  intro base current done rest
  rfl

theorem Moves.append (h : Moves kept before between tokens) (h' : Moves kept between after behind) :
    Moves kept before after (tokens ++ behind) := by
  intro base current done rest
  have hbase : base + between + kept * funs tokens = base + kept * funs tokens + between := by omega
  have hend : base + kept * funs tokens + after + kept * funs behind =
      base + after + kept * funs (tokens ++ behind) := by
    rw [funs_append, Nat.mul_add]
    omega
  rw [List.append_assoc, h base current done (behind ++ rest), hbase, h', hend, List.reverse_append,
    List.append_assoc]

theorem Moves.above (h : Moves kept before after tokens) (depth : Nat) :
    Moves kept (before + depth) (after + depth) tokens := by
  intro base current done rest
  have hbefore : base + (before + depth) = base + depth + before := by omega
  have hafter : base + (after + depth) = base + depth + after := by omega
  rw [hbefore, hafter, h]

/-! ## Single tokens -/

/-- Only a `fun` opens a level by what follows it. -/
theorem opens_of_ne_fun {lexeme : Lexeme} (h : lexeme ≠ .keyword .fun_) (next : Option Token) :
    opens lexeme next = opens lexeme none := by
  unfold opens
  split <;> first | rfl | exact absurd rfl h

theorem opens_of_closes {lexeme : Lexeme} (h : closes lexeme = true) :
    opens lexeme none = false := by
  unfold closes at h
  split at h <;> first | rfl | cases h

/-- A lexeme that neither opens nor closes a level nor ends an argument. -/
def isNeutral (lexeme : Lexeme) : Bool :=
  !opens lexeme none && !closes lexeme && lexeme ≠ .punct .comma && lexeme ≠ .dot &&
    lexeme ≠ .keyword .fun_

/-- The lexeme takes the depth from `before` to `after`, on any line. -/
def Steps (kept before after : Nat) (lexeme : Lexeme) : Prop :=
  ∀ line, Moves kept before after [⟨lexeme, line⟩]

variable {lexeme : Lexeme}

theorem steps_neutral (h : isNeutral lexeme = true) : Steps kept depth depth lexeme := by
  simp only [isNeutral, Bool.and_eq_true, Bool.not_eq_true', decide_eq_true_eq] at h
  obtain ⟨⟨⟨⟨hopens, hcloses⟩, hcomma⟩, hdot⟩, hfun⟩ := h
  intro line base current done rest
  have hparen : lexeme ≠ .punct .closeParen := by
    rintro rfl
    cases hcloses
  rw [funs_singleton_of_ne hfun]
  simp [argumentsFrom, Token.isDot, Token.isPunct, opens_of_ne_fun hfun, hopens, hcloses, hcomma,
    hdot, hparen]

theorem steps_opening (h : opens lexeme none = true) : Steps kept depth (depth + 1) lexeme := by
  have hfun : lexeme ≠ .keyword .fun_ := fun heq => by simp [heq, opens] at h
  have hdot : lexeme ≠ .dot := fun heq => by simp [heq, opens] at h
  intro line base current done rest
  rw [funs_singleton_of_ne hfun]
  simp [argumentsFrom, Token.isDot, opens_of_ne_fun hfun, h, hdot, Nat.add_assoc]

theorem steps_closing (h : closes lexeme = true) : Steps kept (depth + 1) depth lexeme := by
  have hfun : lexeme ≠ .keyword .fun_ := fun heq => by simp [heq, closes] at h
  have hdot : lexeme ≠ .dot := fun heq => by simp [heq, closes] at h
  intro line base current done rest
  rw [funs_singleton_of_ne hfun]
  simp [argumentsFrom, Token.isDot, opens_of_ne_fun hfun, opens_of_closes h, h, hdot,
    ← Nat.add_assoc]

/-- Above depth 0 a comma is a token like any other. -/
theorem steps_comma : Steps kept (depth + 1) (depth + 1) (.punct .comma) := by
  intro line base current done rest
  rw [funs_singleton_of_ne (by simp)]
  simp [argumentsFrom, Token.isDot, Token.isPunct, opens, closes]

/-- A `fun` in front of a parenthesis opens a level, which is left open or closed behind. -/
theorem Moves.fun_paren {token paren : Token} (hfun : token.lexeme = .keyword .fun_)
    (hparen : paren.lexeme = .punct .openParen)
    (h : Moves kept (before + 1) (after + kept) (paren :: tokens)) :
    Moves kept before after (token :: paren :: tokens) := by
  intro base current done rest
  have hend : base + (after + kept) + kept * funs (paren :: tokens) =
      base + after + kept * funs (token :: paren :: tokens) := by
    rw [funs_cons_of_fun hfun, Nat.mul_succ]
    omega
  have hrest := h base (token :: current) done rest
  rw [hend, List.cons_append] at hrest
  rw [List.reverse_cons, List.append_assoc, List.singleton_append, ← hrest, List.cons_append,
    List.cons_append, argumentsFrom]
  simp [Token.isDot, Token.isPunct, hfun, hparen, opens, Nat.add_assoc]

/-- A `fun` in front of a name is a reference to a function and opens nothing. -/
theorem Moves.fun_name {token next : Token} (hfun : token.lexeme = .keyword .fun_)
    (hnext : next.lexeme ≠ .punct .openParen) (h : Moves 0 before after (next :: tokens)) :
    Moves 0 before after (token :: next :: tokens) := by
  intro base current done rest
  have hrest := h base (token :: current) done rest
  rw [Nat.zero_mul, List.cons_append] at hrest
  rw [Nat.zero_mul, List.reverse_cons, List.append_assoc, List.singleton_append, ← hrest,
    List.cons_append, List.cons_append, argumentsFrom]
  simp [Token.isDot, Token.isPunct, hfun, hnext, opens, closes]

/-! ## Splitting -/

theorem Moves.argumentsFrom_eq (h : Moves kept 0 0 tokens) (depth : Nat) (current : List Token)
    (done : List (List Token)) (rest : List Token) :
    argumentsFrom depth current done (tokens ++ rest) =
      argumentsFrom (depth + kept * funs tokens) (tokens.reverse ++ current) done rest :=
  h depth current done rest

/-- At depth 0 a comma ends an argument. -/
theorem argumentsFrom_comma (line : Nat) (current : List Token) (done : List (List Token))
    (rest : List Token) :
    argumentsFrom 0 current done (⟨.punct .comma, line⟩ :: rest) =
      argumentsFrom 0 [] (current.reverse :: done) rest := by
  rw [argumentsFrom]
  simp [Token.isDot, Token.isPunct, opens, closes]

/-- At depth 0 a closing parenthesis ends the list. -/
theorem argumentsFrom_close (line : Nat) {current : List Token} (hne : current ≠ [])
    (done : List (List Token)) (rest : List Token) :
    argumentsFrom 0 current done (⟨.punct .closeParen, line⟩ :: rest) =
      some (done.reverse ++ [current.reverse], rest) := by
  rw [argumentsFrom]
  simp [Token.isDot, Token.isPunct, opens, hne]

/-- The arguments are told apart when each of them comes back to depth 0. -/
theorem ArgumentList.argumentsFrom_eq {arguments done : List (List Token)}
    (hlist : ArgumentList arguments tokens) (h : ∀ argument ∈ arguments, Moves kept 0 0 argument)
    (hfuns : ∀ argument ∈ arguments, kept * funs argument = 0)
    (hne : ∀ argument ∈ arguments, argument ≠ []) (rest : List Token) :
    argumentsFrom 0 [] done (tokens ++ rest) = some (done.reverse ++ arguments, rest) := by
  induction hlist generalizing done with
  | @last argument line =>
    rw [List.forall_mem_singleton] at h hfuns hne
    rw [List.append_assoc, List.singleton_append, h.argumentsFrom_eq, hfuns, List.append_nil,
      argumentsFrom_close line (by simpa using hne), List.reverse_reverse]
  | @more argument tokens arguments line _ ih =>
    rw [List.forall_mem_cons] at h hfuns hne
    rw [List.append_assoc, List.cons_append, h.1.argumentsFrom_eq, hfuns.1, List.append_nil,
      argumentsFrom_comma, List.reverse_reverse, ih h.2 hfuns.2 hne.2, List.reverse_cons,
      List.append_assoc, List.singleton_append]

/-- Where a level is left open, the parenthesis behind the last argument closes that level, and the
list goes on with what follows. -/
theorem ArgumentList.length_behind_lt {arguments done found : List (List Token)}
    (hlist : ArgumentList arguments tokens) (h : ∀ argument ∈ arguments, Moves kept 0 0 argument)
    {current rest behind : List Token} (hopen : 0 < depth + kept * funs arguments.flatten)
    (hfound : argumentsFrom depth current done (tokens ++ rest) = some (found, behind)) :
    behind.length < rest.length := by
  induction hlist generalizing depth current done with
  | @last argument line =>
    rw [List.forall_mem_singleton] at h
    obtain ⟨level, hlevel⟩ : ∃ level, depth + kept * funs argument = level + 1 :=
      Nat.exists_eq_succ_of_ne_zero (by simpa using Nat.ne_of_gt hopen)
    have hclosing : Steps 0 1 0 (.punct .closeParen) := steps_closing rfl
    rw [List.append_assoc, h.argumentsFrom_eq, hlevel, hclosing line level] at hfound
    exact length_argumentsFrom hfound
  | @more argument tokens arguments line _ ih =>
    rw [List.forall_mem_cons] at h
    rw [List.append_assoc, List.cons_append, h.1.argumentsFrom_eq] at hfound
    rw [List.flatten_cons, funs_append, Nat.mul_add, ← Nat.add_assoc] at hopen
    cases hlevel : depth + kept * funs argument with
    | zero =>
      rw [hlevel, argumentsFrom_comma] at hfound
      exact ih h.2 (hlevel ▸ hopen) hfound
    | succ level =>
      have hcomma : Steps 0 1 1 (.punct .comma) := steps_comma
      rw [hlevel, ← List.singleton_append, hcomma line level, Nat.zero_mul] at hfound
      exact ih h.2 (hlevel ▸ hopen) hfound

end Expansion

end HeaderForms
