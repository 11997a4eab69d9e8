-- SUMMARY: Where the tokens that macros leave come from: their lines and their integers.
import HeaderForms.Macro.ToForm
import HeaderForms.Proofs.Macro.Expansion
import HeaderForms.Proofs.Macro.Parameters
import HeaderForms.Proofs.Token.Literal

/-!
# Origins of tokens

Macros move the tokens of a text about and make few of their own: the values of predefined macros,
the texts of arguments, and what turns a use into a call. None of these is on a line where the text
has no token, and none is an integer save the number of such a line.
-/

namespace HeaderForms

variable {sources tokens : List Token}

/-- An integer is that of one of the tokens, or the line of one. -/
def Lexeme.NumberOf (sources : List Token) (lexeme : Lexeme) : Prop :=
  ∀ value, lexeme = .integer value →
    (∃ source ∈ sources, source.lexeme = .integer value) ∨ ∃ source ∈ sources, source.line = value

/-- The token is on the line of one of these, and its integer, if it is one, comes from them. -/
structure Token.MadeOf (sources : List Token) (token : Token) : Prop where
  line : ∃ source ∈ sources, source.line = token.line
  number : token.lexeme.NumberOf sources

theorem Lexeme.numberOf_of_isInteger {lexeme : Lexeme} (h : lexeme.isInteger = false) :
    lexeme.NumberOf sources := by
  rintro value rfl
  cases h

namespace Token

theorem madeOf_of_mem {token : Token} (h : token ∈ sources) : token.MadeOf sources :=
  ⟨⟨token, h, rfl⟩, fun _ heq => .inl ⟨token, h, heq⟩⟩

/-- A token that is no integer may take the line of another. -/
theorem MadeOf.onLine {token : Token} (h : token.MadeOf sources) {lexeme : Lexeme}
    (hlexeme : lexeme.isInteger = false) : MadeOf sources ⟨lexeme, token.line⟩ :=
  ⟨h.line, Lexeme.numberOf_of_isInteger hlexeme⟩

end Token

/-! ## Tables -/

/-- The body of the entry, if it has one, is made of these tokens. -/
def MacroEntry.BodyIn (sources : List Token) (entry : MacroEntry) : Prop :=
  ∀ params body, entry.definition = .defined params body → body ⊆ sources

/-- The entry that a change of a table puts in. -/
def MacroChange.entry : MacroChange → MacroEntry
  | .define added => ⟨added.arity, added.definition⟩
  | .undefine _ => ⟨.noArgs, .absent⟩

namespace MacroTable

variable {table : MacroTable} {P : MacroEntry → Prop}

/-- Every entry of the table has the property. -/
def Every (P : MacroEntry → Prop) (table : MacroTable) : Prop :=
  ∀ name entries, (name, entries) ∈ table.macros → ∀ entry ∈ entries, P entry

theorem every_empty : empty.Every P :=
  nofun

theorem mem_changed {entries : List MacroEntry} {change : MacroChange} {entry : MacroEntry}
    (h : entry ∈ changed entries change) : entry = change.entry ∨ entry ∈ entries := by
  cases change with
  | define added => exact (mem_replace h).imp_right fun hmem => (List.mem_filter.1 hmem).1
  | undefine name => exact .inl (List.mem_singleton.1 h)

theorem Every.apply (h : table.Every P) {change : MacroChange} (hchange : P change.entry) :
    (table.apply change).Every P := by
  intro name entries hmem entry hentry
  rw [apply_eq] at hmem
  obtain hmem | ⟨-, before, rfl, hbefore⟩ := mem_alter hmem
  · exact h name entries hmem entry hentry
  · obtain rfl | hentry := mem_changed hentry
    · exact hchange
    · obtain rfl | hbefore := hbefore
      · cases hentry
      · exact h _ before hbefore entry hentry

theorem Every.foldl_apply (h : table.Every P) {changes : List MacroChange}
    (hchanges : ∀ change ∈ changes, P change.entry) : (changes.foldl MacroTable.apply table).Every P := by
  induction changes generalizing table with
  | nil => exact h
  | cons change changes ih =>
    obtain ⟨hchange, hchanges⟩ := List.forall_mem_cons.1 hchanges
    exact ih (h.apply hchange) hchanges

theorem Every.of_get? (h : table.Every P) {name : String} {arity : MacroArity}
    {definition : MacroDefinition} (hget : table.get? name arity = some definition) :
    ∃ entry, P entry ∧ entry.definition = definition := by
  obtain ⟨entries, entry, hentries, hentry, -, hdefinition⟩ := exists_of_get? hget
  exact ⟨entry, h name entries hentries entry hentry, hdefinition⟩

end MacroTable

/-! ## Expansion -/

namespace Expansion

open Token (MadeOf)

variable {table : MacroTable} {context : FileContext} {use : Use} {behind out : List Token}

/-- The arguments of a use and the tokens behind it are those of the use. -/
theorem forall_mem_of_argumentsFrom {P : Token → Prop} {depth : Nat} {current : List Token}
    {done arguments : List (List Token)} (hcurrent : ∀ token ∈ current, P token)
    (hdone : ∀ argument ∈ done, ∀ token ∈ argument, P token) (htokens : ∀ token ∈ tokens, P token)
    (h : argumentsFrom depth current done tokens = some (arguments, behind)) :
    (∀ argument ∈ arguments, ∀ token ∈ argument, P token) ∧ ∀ token ∈ behind, P token := by
  have hnext : ∀ token rest, (∀ other ∈ token :: rest, P other) →
      ∀ current : List Token, (∀ other ∈ current, P other) → ∀ other ∈ token :: current, P other :=
    fun token rest hall current hcurrent =>
      List.forall_mem_cons.2 ⟨hall token List.mem_cons_self, hcurrent⟩
  have hargument : ∀ current : List Token, (∀ other ∈ current, P other) →
      ∀ done : List (List Token), (∀ argument ∈ done, ∀ other ∈ argument, P other) →
      ∀ argument ∈ current.reverse :: done, ∀ other ∈ argument, P other :=
    fun current hcurrent done hdone =>
      List.forall_mem_cons.2 ⟨fun other hother => hcurrent other (List.mem_reverse.1 hother), hdone⟩
  fun_induction argumentsFrom depth current done tokens with
  | case1 | case2 => cases h
  | case3 _ _ _ token rest _ _ ih =>
    exact ih (hnext token rest htokens _ hcurrent) hdone (List.forall_mem_cons.1 htokens).2 h
  | case4 =>
    cases h
    exact ⟨List.forall_mem_nil _, (List.forall_mem_cons.1 htokens).2⟩
  | case5 =>
    cases h
    refine ⟨fun argument hmem => ?_, (List.forall_mem_cons.1 htokens).2⟩
    exact hargument _ hcurrent _ hdone argument (List.mem_reverse.1 hmem)
  | case6 _ _ _ token rest _ _ _ _ ih =>
    exact ih (hnext token rest htokens _ hcurrent) hdone (List.forall_mem_cons.1 htokens).2 h
  | case7 _ _ _ _ _ _ _ _ _ _ ih =>
    exact ih (List.forall_mem_nil _) (hargument _ hcurrent _ hdone)
      (List.forall_mem_cons.1 htokens).2 h
  | case8 _ _ _ token rest _ _ _ _ _ ih =>
    exact ih (hnext token rest htokens _ hcurrent) hdone (List.forall_mem_cons.1 htokens).2 h

/-- The use and what is behind it are made of the tokens that hold them. -/
theorem UseAt.madeOf (h : UseAt table tokens use behind)
    (htokens : ∀ token ∈ tokens, token.MadeOf sources) :
    (∃ mark : Token, mark.MadeOf sources ∧ use.line = mark.line) ∧
      (∀ arguments ∈ use.arguments, ∀ argument ∈ arguments, ∀ token ∈ argument,
        token.MadeOf sources) ∧ ∀ token ∈ behind, token.MadeOf sources := by
  cases h with
  | @applied mark next paren rest _ _ arguments _ _ _ _ harguments _ =>
    obtain ⟨hmark, htokens⟩ := List.forall_mem_cons.1 htokens
    obtain ⟨-, htokens⟩ := List.forall_mem_cons.1 htokens
    obtain ⟨-, hrest⟩ := List.forall_mem_cons.1 htokens
    obtain ⟨hmade, hbehind⟩ := forall_mem_of_argumentsFrom (List.forall_mem_nil _)
      (List.forall_mem_nil _) hrest harguments
    refine ⟨⟨mark, hmark, rfl⟩, fun arguments' heq => ?_, hbehind⟩
    obtain rfl := Option.some.inj heq
    exact hmade
  | @bare mark =>
    obtain ⟨hmark, htokens⟩ := List.forall_mem_cons.1 htokens
    exact ⟨⟨mark, hmark, rfl⟩, nofun, (List.forall_mem_cons.1 htokens).2⟩

theorem forall_mem_argument? {P : Token → Prop} {bindings : List (String × List Token)}
    {token : Token} {argument : List Token}
    (hbindings : ∀ binding ∈ bindings, ∀ token ∈ binding.2, P token)
    (h : argument? bindings token = some argument) : ∀ token ∈ argument, P token := by
  unfold argument? at h
  split at h
  case h_1 name _ => exact hbindings (name, argument) (mem_of_lookup h)
  case h_2 => cases h

theorem madeOf_bind {bindings : List (String × List Token)} {body : List Token} {mark : Token}
    (hbindings : ∀ binding ∈ bindings, ∀ token ∈ binding.2, token.MadeOf sources)
    (hmark : mark.MadeOf sources) (hbody : ∀ token ∈ body, token.MadeOf sources) :
    ∀ token ∈ bind bindings mark.line body, token.MadeOf sources := by
  have hsingle : ∀ first : Token, first.MadeOf sources →
      ∀ token ∈ (argument? bindings first).getD [first], token.MadeOf sources := by
    intro first hfirst
    cases hargument : argument? bindings first with
    | none => exact List.forall_mem_singleton.2 hfirst
    | some argument => exact forall_mem_argument? hbindings hargument
  fun_induction bind bindings mark.line body with
  | case1 first second param rest argument _ ih =>
    obtain ⟨-, hbody⟩ := List.forall_mem_cons.1 hbody
    obtain ⟨-, hbody⟩ := List.forall_mem_cons.1 hbody
    exact List.forall_mem_cons.2
      ⟨hmark.onLine rfl, ih (List.forall_mem_cons.1 hbody).2⟩
  | case2 first second param rest _ ih =>
    obtain ⟨hfirst, hbody⟩ := List.forall_mem_cons.1 hbody
    exact List.forall_mem_append.2 ⟨hsingle first hfirst, ih hbody⟩
  | case3 first rest _ ih =>
    obtain ⟨hfirst, hbody⟩ := List.forall_mem_cons.1 hbody
    exact List.forall_mem_append.2 ⟨hsingle first hfirst, ih hbody⟩
  | case4 => exact List.forall_mem_nil _

theorem Use.madeOf_body? {body : List Token} {mark : Token} (hbody : use.body? table = some body)
    (htable : table.Every (MacroEntry.BodyIn sources)) (hmark : mark.MadeOf sources)
    (hline : use.line = mark.line)
    (harguments : ∀ arguments ∈ use.arguments, ∀ argument ∈ arguments, ∀ token ∈ argument,
      token.MadeOf sources) : ∀ token ∈ body, token.MadeOf sources := by
  have hdefined : ∀ params body, table.get? use.name use.arity = some (.defined params body) →
      ∀ token ∈ body, token.MadeOf sources := by
    intro params body hget
    obtain ⟨entry, hentry, hdefinition⟩ := htable.of_get? hget
    exact fun token htoken => Token.madeOf_of_mem (hentry params body hdefinition htoken)
  unfold Use.body? at hbody
  split at hbody
  case h_1 params body arguments hget hsome =>
    cases hbody
    rw [hline]
    refine madeOf_bind (fun binding hbinding => ?_) hmark (hdefined params body hget)
    exact harguments arguments hsome binding.2 (List.of_mem_zip hbinding).2
  case h_2 params body hget _ =>
    cases hbody
    exact hdefined params body hget
  case h_3 => cases hbody

/-- The only predefined value that is an integer is a line. -/
theorem eq_of_predefined? {name : String} {line value : Nat}
    (h : context.predefined? name line = some (.integer value)) : value = line := by
  unfold FileContext.predefined? at h
  split at h
  case h_3 =>
    cases h
    rfl
  all_goals cases h

theorem Use.madeOf_token? {token mark : Token} (h : use.token? table context = some token)
    (hmark : mark.MadeOf sources) (hline : use.line = mark.line) : token.MadeOf sources := by
  unfold Use.token? at h
  split at h
  case h_2 => cases h
  case h_1 =>
    obtain ⟨lexeme, hlexeme, rfl⟩ := Option.map_eq_some_iff.1 h
    rw [hline] at hlexeme ⊢
    refine ⟨hmark.line, ?_⟩
    rintro value rfl
    rw [eq_of_predefined? hlexeme]
    exact .inr hmark.line

/-- Expansion makes its tokens of those of the text, use by use. -/
theorem Expands.madeOf {depth : Nat} (h : Expands table context tokens out depth)
    (htable : table.Every (MacroEntry.BodyIn sources))
    (htokens : ∀ token ∈ tokens, token.MadeOf sources) : ∀ token ∈ out, token.MadeOf sources := by
  induction h with
  | nil => exact List.forall_mem_nil _
  | plain _ _ ih =>
    obtain ⟨htoken, hrest⟩ := List.forall_mem_cons.1 htokens
    exact List.forall_mem_cons.2 ⟨htoken, ih hrest⟩
  | definition huse hbody _ _ ihBody ih =>
    obtain ⟨⟨mark, hmark, hline⟩, harguments, hbehind⟩ := huse.madeOf htokens
    have hmade := Use.madeOf_body? hbody htable hmark hline harguments
    exact List.forall_mem_append.2 ⟨ihBody hmade, ih hbehind⟩
  | predefined huse htoken _ ih =>
    obtain ⟨⟨mark, hmark, hline⟩, -, hbehind⟩ := huse.madeOf htokens
    exact List.forall_mem_cons.2 ⟨Use.madeOf_token? htoken hmark hline, ih hbehind⟩

theorem madeOf_expand (h : expand table context tokens = .ok out)
    (htable : table.Every (MacroEntry.BodyIn sources)) (htokens : tokens ⊆ sources) :
    ∀ token ∈ out, token.MadeOf sources := by
  obtain ⟨depth, -, hexpands, -⟩ := expand_eq_ok_iff.1 h
  exact hexpands.madeOf htable fun token htoken => Token.madeOf_of_mem (htokens htoken)

end Expansion

/-! ## Calls -/

namespace MacroUse

theorem madeOf_stringifyCall {argument mark : Token} (hargument : argument.MadeOf sources)
    (hmark : mark.MadeOf sources) :
    ∀ token ∈ stringifyCall argument mark.line, token.MadeOf sources := by
  have hatom : ∀ name, Token.MadeOf sources ⟨.atom name, mark.line⟩ :=
    fun _ => hmark.onLine rfl
  have hpunct : ∀ punct, Token.MadeOf sources ⟨.punct punct, mark.line⟩ :=
    fun _ => hmark.onLine rfl
  simp [stringifyCall, hargument, hatom, hpunct]

theorem madeOf_emptyArguments {mark : Token} (hmark : mark.MadeOf sources) (behind : List Token) :
    ∀ token ∈ emptyArguments mark.line behind, token.MadeOf sources := by
  have hpunct : ∀ punct, Token.MadeOf sources ⟨.punct punct, mark.line⟩ :=
    fun _ => hmark.onLine rfl
  unfold emptyArguments
  split
  case isTrue => exact List.forall_mem_nil _
  case isFalse =>
    exact List.forall_mem_cons.2 ⟨hpunct _, List.forall_mem_singleton.2 (hpunct _)⟩

theorem madeOf_toCalls (h : ∀ token ∈ tokens, token.MadeOf sources) :
    ∀ token ∈ toCalls tokens, token.MadeOf sources := by
  fun_induction toCalls tokens with
  | case1 => exact h
  | case2 => exact h
  | case3 => exact h
  | case4 mark _ next _ argument behind ih =>
    obtain ⟨hmark, h⟩ := List.forall_mem_cons.1 h
    obtain ⟨-, h⟩ := List.forall_mem_cons.1 h
    obtain ⟨hargument, hbehind⟩ := List.forall_mem_cons.1 h
    exact List.forall_mem_append.2 ⟨madeOf_stringifyCall hargument hmark, ih hbehind⟩
  | case5 mark _ next behind _ name _ ih =>
    obtain ⟨hmark, h⟩ := List.forall_mem_cons.1 h
    obtain ⟨-, hbehind⟩ := List.forall_mem_cons.1 h
    refine List.forall_mem_cons.2 ⟨hmark.onLine rfl, List.forall_mem_append.2 ?_⟩
    exact ⟨madeOf_emptyArguments hmark behind, ih hbehind⟩
  | case6 mark _ next behind _ _ ih =>
    obtain ⟨hmark, hrest⟩ := List.forall_mem_cons.1 h
    exact List.forall_mem_cons.2 ⟨hmark, ih hrest⟩
  | case7 token rest _ ih =>
    obtain ⟨htoken, hrest⟩ := List.forall_mem_cons.1 h
    exact List.forall_mem_cons.2 ⟨htoken, ih hrest⟩

end MacroUse

/-- The end marker behind a body is on no line of the text if the body is empty. -/
theorem MacroForm.numberOf_expressionTokens {body : List Token} (h : body ⊆ sources) :
    ∀ token ∈ expressionTokens body, token.lexeme.NumberOf sources := by
  refine List.forall_mem_append.2 ⟨fun token htoken => ?_, List.forall_mem_singleton.2 ?_⟩
  · have hmade := MacroUse.madeOf_toCalls fun token hmem => Token.madeOf_of_mem (h hmem)
    exact (hmade token htoken).number
  · exact Lexeme.numberOf_of_isInteger rfl

end HeaderForms
