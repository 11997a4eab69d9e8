-- SUMMARY: How macro definitions are written, and that only what is so written is accepted.
import Mathlib.Data.List.Basic
import HeaderForms.Macro.Directive

/-!
# Written definitions

A definition is written `-define(NAME, body).` or `-define(NAME(P1, ..., Pn), body).`, and the body
may be left out with its comma. The rules below say which tokens are written so and what they
define. Exactly these are accepted. The body needs no rule: it is what stands between the comma and
the last two tokens, so the parentheses and commas in it belong to nothing else.
-/

namespace HeaderForms

theorem Token.isPunct_iff {token : Token} {mark : Punct} :
    token.isPunct mark = true ↔ token.lexeme = .punct mark := by
  simp [isPunct]

theorem Token.isDot_iff {token : Token} : token.isDot = true ↔ token.lexeme = .dot := by
  simp [isDot]

theorem Token.name?_eq_some {token : Token} {name : String} :
    token.name? = some name ↔ token.lexeme = .atom name ∨ token.lexeme = .var name := by
  unfold name?
  split
  case h_1 _ h => simp [h]
  case h_2 _ h => simp [h]
  case h_3 hatom hvar =>
    exact iff_of_false nofun fun h => h.elim (hatom name) (hvar name)

namespace Directive

theorem varName?_eq_some {token : Token} {name : String} :
    varName? token = some name ↔ token.lexeme = .var name := by
  unfold varName?
  split
  case h_1 _ h => simp [h]
  case h_2 hvar => exact iff_of_false nofun (hvar name)

/-! ## Rules -/

/-- Variables with these names, and a comma between each two. -/
inductive WritesNames : List String → List Token → Prop where
  | single {name : String} {param : Token} (hparam : param.lexeme = .var name) :
    WritesNames [name] [param]
  | cons {name : String} {names : List String} {param comma : Token} {rest : List Token}
    (hparam : param.lexeme = .var name) (hcomma : comma.lexeme = .punct .comma)
    (hrest : WritesNames names rest) : WritesNames (name :: names) (param :: comma :: rest)

/-- What may stand behind the name of the macro. Empty parentheses are not the same as none. -/
inductive WritesParameters : Option (List String) → List Token → Prop where
  | absent : WritesParameters none []
  | empty {opening closing : Token} (hopening : opening.lexeme = .punct .openParen)
    (hclosing : closing.lexeme = .punct .closeParen) : WritesParameters (some []) [opening, closing]
  | listed {names : List String} {opening closing : Token} {list : List Token}
    (hopening : opening.lexeme = .punct .openParen) (hlist : WritesNames names list)
    (hclosing : closing.lexeme = .punct .closeParen) :
    WritesParameters (some names) (opening :: (list ++ [closing]))

/-- The body is kept as it stands. -/
inductive WritesBody : List Token → List Token → Prop where
  | absent : WritesBody [] []
  | given {comma : Token} {body : List Token} (hcomma : comma.lexeme = .punct .comma) :
    WritesBody body (comma :: body)

/-- The definition with these parameters, if it has a list of them. -/
def definitionOf (name : String) (params : Option (List String)) (body : List Token) :
    MacroDefine :=
  match params with
  | some params => ⟨name, .fixed params.length, .defined params body⟩
  | none => ⟨name, .noArgs, .defined [] body⟩

/-- What stands behind `-define` up to the end marker, which is the last token. -/
inductive Writes : MacroDefine → List Token → Prop where
  | mk {name : String} {params : Option (List String)} {body parameters written : List Token}
    {opening named closing stop : Token} (hopening : opening.lexeme = .punct .openParen)
    (hnamed : named.lexeme = .atom name ∨ named.lexeme = .var name)
    (hparameters : WritesParameters params parameters) (hbody : WritesBody body written)
    (hclosing : closing.lexeme = .punct .closeParen) (hstop : stop.lexeme = .dot) :
    Writes (definitionOf name params body)
      (opening :: named :: (parameters ++ written) ++ [closing, stop])

/-! ## Reading by the rules -/

theorem body?_eq_some_iff {minus word : Token} {rest inner : List Token} :
    body? (minus :: word :: rest) = some inner ↔
      ∃ opening closing stop : Token, opening.lexeme = .punct .openParen ∧
        closing.lexeme = .punct .closeParen ∧ stop.lexeme = .dot ∧
        rest = opening :: inner ++ [closing, stop] := by
  constructor
  · intro h
    unfold body? at h
    split at h
    case h_2 => cases h
    case h_1 opening behind htokens =>
      cases htokens
      split at h
      case h_2 => cases h
      case h_1 stop closing reversed hreverse =>
        split at h
        case isFalse => cases h
        case isTrue hmarks =>
          cases h
          simp only [Bool.and_eq_true, Token.isPunct_iff, Token.isDot_iff] at hmarks
          refine ⟨opening, closing, stop, hmarks.1.1, hmarks.1.2, hmarks.2, ?_⟩
          rw [← List.reverse_reverse behind, hreverse]
          simp
  · rintro ⟨opening, closing, stop, hopening, hclosing, hstop, rfl⟩
    simp [body?, Token.isPunct, Token.isDot, hopening, hclosing, hstop]

theorem parametersFrom?_eq_some_iff {tokens rest : List Token} {names : List String} :
    parametersFrom? tokens = some (names, rest) ↔
      ∃ list closing, WritesNames names list ∧ closing.lexeme = .punct .closeParen ∧
        tokens = list ++ closing :: rest := by
  constructor
  · intro h
    fun_induction parametersFrom? tokens generalizing names with
    | case1 param closing behind name hname hclosing =>
      cases h
      exact ⟨[param], closing, .single (varName?_eq_some.1 hname),
        Token.isPunct_iff.1 hclosing, rfl⟩
    | case2 param comma behind name hname hclosing hcomma ih =>
      obtain ⟨⟨others, rest'⟩, hothers, heq⟩ := Option.map_eq_some_iff.1 h
      cases heq
      obtain ⟨list, closing, hlist, hclosing, rfl⟩ := ih hothers
      exact ⟨param :: comma :: list, closing,
        .cons (varName?_eq_some.1 hname) (Token.isPunct_iff.1 hcomma) hlist, hclosing, rfl⟩
    | case3 | case4 | case5 => cases h
  · rintro ⟨list, closing, hlist, hclosing, rfl⟩
    induction hlist with
    | single hparam => simp [parametersFrom?, varName?_eq_some.2 hparam, Token.isPunct, hclosing]
    | cons hparam hcomma hrest ih =>
      simp [parametersFrom?, varName?_eq_some.2 hparam, Token.isPunct, hcomma, ih]

theorem parameters?_eq_some_iff {opening : Token} (hopening : opening.lexeme = .punct .openParen)
    {tokens rest : List Token} {names : List String} :
    parameters? tokens = some (names, rest) ↔
      ∃ parameters, WritesParameters (some names) (opening :: parameters) ∧
        tokens = parameters ++ rest := by
  constructor
  · intro h
    unfold parameters? at h
    split at h
    case h_1 => cases h
    case h_2 closing behind =>
      split at h
      case isTrue hclosing =>
        cases h
        exact ⟨[closing], .empty hopening (Token.isPunct_iff.1 hclosing), rfl⟩
      case isFalse =>
        obtain ⟨list, closing, hlist, hclosing, heq⟩ := parametersFrom?_eq_some_iff.1 h
        exact ⟨list ++ [closing], .listed hopening hlist hclosing, by simp [heq]⟩
  · rintro ⟨parameters, hparameters, rfl⟩
    cases hparameters with
    | empty _ hclosing => simp [parameters?, Token.isPunct, hclosing]
    | @listed _ _ closing list _ hlist hclosing =>
      have hread : parametersFrom? (list ++ closing :: rest) = some (names, rest) :=
        parametersFrom?_eq_some_iff.2 ⟨list, closing, hlist, hclosing, rfl⟩
      rw [List.append_assoc, List.singleton_append]
      -- A variable, the first token of the list, does not close it.
      cases hlist with
      | single hparam | cons hparam => simpa [parameters?, Token.isPunct, hparam] using hread

theorem exists_of_head? {tokens rest : List Token} {params : Option (List String)}
    (h : head? tokens = some (params, rest)) :
    ∃ parameters, WritesParameters params parameters ∧ tokens = parameters ++ rest := by
  unfold head? at h
  split at h
  case h_2 =>
    cases h
    exact ⟨[], .absent, rfl⟩
  case h_1 opening behind =>
    split at h
    case isFalse =>
      cases h
      exact ⟨[], .absent, rfl⟩
    case isTrue hopening =>
      obtain ⟨⟨names, rest'⟩, hnames, heq⟩ := Option.map_eq_some_iff.1 h
      cases heq
      obtain ⟨parameters, hparameters, rfl⟩ :=
        (parameters?_eq_some_iff (Token.isPunct_iff.1 hopening)).1 hnames
      exact ⟨opening :: parameters, hparameters, rfl⟩

/-- A body does not start with the parenthesis that a list of parameters would start with. -/
theorem head?_written {params : Option (List String)} {parameters body written : List Token}
    (hparameters : WritesParameters params parameters) (hbody : WritesBody body written) :
    head? (parameters ++ written) = some (params, written) := by
  cases params with
  | none =>
    cases hparameters
    cases hbody with
    | absent => rfl
    | given hcomma => simp [head?, Token.isPunct, hcomma]
  | some names =>
    obtain ⟨opening, list, rfl, hopening⟩ : ∃ opening list, parameters = opening :: list ∧
        opening.lexeme = .punct .openParen := by
      cases hparameters with
      | empty hopening | listed hopening => exact ⟨_, _, rfl, hopening⟩
    have hread : parameters? (list ++ written) = some (names, written) :=
      (parameters?_eq_some_iff hopening).2 ⟨list, hparameters, rfl⟩
    simp [head?, Token.isPunct, hopening, hread]

theorem definitionBody?_eq_some_iff {tokens body : List Token} :
    definitionBody? tokens = some body ↔ WritesBody body tokens := by
  constructor
  · intro h
    unfold definitionBody? at h
    split at h
    case h_1 =>
      cases h
      exact .absent
    case h_2 comma rest =>
      split at h
      case isTrue hcomma =>
        cases h
        exact .given (Token.isPunct_iff.1 hcomma)
      case isFalse => cases h
  · intro h
    cases h with
    | absent => rfl
    | given hcomma => simp [definitionBody?, Token.isPunct, hcomma]

/-! ## Reading a whole definition -/

theorem readDefine_of_parts {tokens inner rest body : List Token} {name : String}
    {params : Option (List String)} (hinner : body? tokens = some inner)
    (hname : inner.head?.bind Token.name? = some name)
    (hhead : head? inner.tail = some (params, rest)) (hbody : definitionBody? rest = some body) :
    readDefine tokens = .ok (definitionOf name params body) := by
  simp only [readDefine, Directive.body, hinner, bind, Except.bind, hname, hhead, hbody]
  cases params <;> rfl

/-- A definition is accepted with all its parts, or refused on the line that it starts on. -/
theorem readDefine_cases (tokens : List Token) :
    (∃ inner name params rest body, body? tokens = some inner ∧
      inner.head?.bind Token.name? = some name ∧ head? inner.tail = some (params, rest) ∧
      definitionBody? rest = some body ∧
      readDefine tokens = .ok (definitionOf name params body)) ∨
    ∃ fault, readDefine tokens = .error ⟨line tokens, fault⟩ := by
  cases hinner : body? tokens with
  | none =>
    exact .inr ⟨.malformedDirective, by
      simp [readDefine, Directive.body, hinner, bind, Except.bind]⟩
  | some inner =>
    cases hname : inner.head?.bind Token.name? with
    | none =>
      exact .inr ⟨.badDefineName, by
        simp [readDefine, Directive.body, hinner, bind, Except.bind, hname]⟩
    | some name =>
      cases hhead : head? inner.tail with
      | none =>
        exact .inr ⟨.badParameters name, by
          simp [readDefine, Directive.body, hinner, bind, Except.bind, hname, hhead]⟩
      | some found =>
        obtain ⟨params, rest⟩ := found
        cases hbody : definitionBody? rest with
        | none =>
          exact .inr ⟨.badDefine name, by
            simp [readDefine, Directive.body, hinner, bind, Except.bind, hname, hhead, hbody]⟩
        | some body =>
          exact .inl ⟨inner, name, params, rest, body, rfl, hname, hhead, hbody,
            readDefine_of_parts hinner hname hhead hbody⟩

/-! ## Exactness -/

theorem readDefine_written {minus word : Token} {rest : List Token} {define : MacroDefine}
    (h : Writes define rest) : readDefine (minus :: word :: rest) = .ok define := by
  cases h with
  | @mk name params body parameters written opening named closing stop hopening hnamed hparameters
      hbody hclosing hstop =>
    exact readDefine_of_parts
      (body?_eq_some_iff.2 ⟨opening, closing, stop, hopening, hclosing, hstop, rfl⟩)
      (Token.name?_eq_some.2 hnamed) (head?_written hparameters hbody)
      (definitionBody?_eq_some_iff.2 hbody)

theorem writes_of_readDefine {minus word : Token} {rest : List Token} {define : MacroDefine}
    (h : readDefine (minus :: word :: rest) = .ok define) : Writes define rest := by
  rcases readDefine_cases (minus :: word :: rest) with
    ⟨inner, name, params, behind, body, hinner, hname, hhead, hbody, hread⟩ | ⟨fault, hread⟩
  · cases hread.symm.trans h
    obtain ⟨opening, closing, stop, hopening, hclosing, hstop, rfl⟩ := body?_eq_some_iff.1 hinner
    obtain ⟨named, hnamed, hname⟩ := Option.bind_eq_some_iff.1 hname
    obtain ⟨others, rfl⟩ := List.head?_eq_some_iff.1 hnamed
    obtain ⟨parameters, hparameters, hbehind⟩ := exists_of_head? hhead
    rw [List.tail_cons] at hbehind
    subst hbehind
    exact .mk hopening (Token.name?_eq_some.1 hname) hparameters
      (definitionBody?_eq_some_iff.1 hbody) hclosing hstop
  · cases hread.symm.trans h

/-- A definition is accepted exactly when its tokens are written by the rules, and as the definition
that they write. All others are refused, on the line that they start on. -/
theorem readDefine_eq_ok_iff (minus word : Token) (rest : List Token) :
    (∀ define, readDefine (minus :: word :: rest) = .ok define ↔ Writes define rest) ∧
      ((¬ ∃ define, Writes define rest) →
        ∃ fault, readDefine (minus :: word :: rest) = .error ⟨minus.line, fault⟩) := by
  refine ⟨fun define => ⟨writes_of_readDefine, readDefine_written⟩, fun hnone => ?_⟩
  rcases readDefine_cases (minus :: word :: rest) with ⟨_, _, _, _, _, -, -, -, -, hread⟩ | hrefused
  · exact absurd ⟨_, writes_of_readDefine hread⟩ hnone
  · exact hrefused

/-- What follows `-define` in `-define(M(X), f(X), ?Y).` -/
def writtenTokens (separator : Punct) : List Token :=
  [.punct .openParen, .var "M", .punct .openParen, .var "X", .punct .closeParen, .punct separator,
    .atom "f", .punct .openParen, .var "X", .punct .closeParen, .punct .comma, .punct .question,
    .var "Y", .punct .closeParen, .dot].map (Token.mk · 1)

/-- The parentheses and the comma in the body are no part of the parameters. Without a comma between
the parameters and the body there is no definition. -/
theorem readDefine_eq_ok_iff_sample :
    let minus : Token := ⟨.punct .minus, 1⟩
    let word : Token := ⟨.atom "define", 1⟩
    Writes ⟨"M", .fixed 1, .defined ["X"] (((writtenTokens .comma).drop 6).take 7)⟩
        (writtenTokens .comma) ∧
      (¬ ∃ define, Writes define (writtenTokens .semicolon)) ∧
      ∃ fault, readDefine (minus :: word :: writtenTokens .semicolon) = .error ⟨1, fault⟩ := by
  intro minus word
  have hnone : ¬ ∃ define, Writes define (writtenTokens .semicolon) := by
    rintro ⟨define, h⟩
    cases ((readDefine_eq_ok_iff minus word _).1 define).2 h
  exact ⟨((readDefine_eq_ok_iff minus word _).1 _).1 rfl, hnone,
    (readDefine_eq_ok_iff minus word _).2 hnone⟩

end Directive

end HeaderForms
