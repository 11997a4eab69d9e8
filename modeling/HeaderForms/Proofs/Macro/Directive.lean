-- SUMMARY: What accepted macro directives hold, and that lines do not matter to them.
import HeaderForms.Proofs.Macro.History
import HeaderForms.Proofs.Macro.Written

/-!
# Accepted directives

A directive is accepted or refused by its lexemes alone. The body of an accepted definition is the
run of tokens up to the last parenthesis of the directive, as it stands there, and its parameters,
which are as many as its arity says, are variables before the body.
-/

namespace HeaderForms

/-! ## Tokens on other lines -/

/-- Tokens may change their lines and nothing else. -/
def Token.KeepsLexemes (relocate : Token → Token) : Prop :=
  ∀ token, (relocate token).lexeme = token.lexeme

namespace MacroDefinition

/-- The definition with the tokens of its body on other lines. -/
def relocate (relocate : Token → Token) : MacroDefinition → MacroDefinition
  | .defined params body => .defined params (body.map relocate)
  | .absent => .absent
  | .predefined => .predefined

end MacroDefinition

def MacroEntry.relocate (relocate : Token → Token) (entry : MacroEntry) : MacroEntry :=
  { entry with definition := entry.definition.relocate relocate }

def MacroTable.relocate (relocate : Token → Token) (table : MacroTable) : MacroTable :=
  ⟨table.macros.map (Prod.map id (List.map (MacroEntry.relocate relocate)))⟩

def MacroDefine.relocate (relocate : Token → Token) (define : MacroDefine) : MacroDefine :=
  { define with definition := define.definition.relocate relocate }

def MacroChange.relocate (relocate : Token → Token) : MacroChange → MacroChange
  | .define added => .define (added.relocate relocate)
  | .undefine name => .undefine name

/-! ## Tables on other lines -/

namespace MacroTable

variable (relocate : Token → Token)

theorem relocate_eq_absent {definition : MacroDefinition} :
    definition.relocate relocate = .absent ↔ definition = .absent := by
  cases definition <;> simp [MacroDefinition.relocate]

theorem replace_relocate (entry : MacroEntry) (entries : List MacroEntry) :
    (replace entry entries).map (MacroEntry.relocate relocate) =
      replace (entry.relocate relocate) (entries.map (MacroEntry.relocate relocate)) := by
  induction entries with
  | nil => rfl
  | cons other entries ih =>
    rw [replace, List.map_cons, replace]
    change _ = if other.arity = entry.arity then _ else _
    split
    case isTrue => rfl
    case isFalse => rw [List.map_cons, ih]

theorem redefine_relocate (entry : MacroEntry) (entries : List MacroEntry) :
    (redefine entry entries).map (MacroEntry.relocate relocate) =
      redefine (entry.relocate relocate) (entries.map (MacroEntry.relocate relocate)) := by
  have hpresent : (fun entry : MacroEntry => decide (entry.definition ≠ .absent)) ∘
      MacroEntry.relocate relocate = fun entry => decide (entry.definition ≠ .absent) := by
    funext entry
    simp [MacroEntry.relocate, relocate_eq_absent]
  rw [redefine, redefine, replace_relocate, List.filter_map, hpresent]

theorem changed_relocate (entries : List MacroEntry) (change : MacroChange) :
    (changed entries change).map (MacroEntry.relocate relocate) =
      changed (entries.map (MacroEntry.relocate relocate)) (change.relocate relocate) := by
  cases change with
  | define added => exact redefine_relocate relocate _ entries
  | undefine name => rfl

theorem apply_relocate (table : MacroTable) (change : MacroChange) :
    (table.apply change).relocate relocate =
      (table.relocate relocate).apply (change.relocate relocate) := by
  have hname : (change.relocate relocate).name = change.name := by cases change <;> rfl
  rw [apply_eq, apply_eq, hname]
  exact congrArg MacroTable.mk
    (map_alter (fun entries => changed_relocate relocate entries change) rfl table.macros)

theorem ofHistory_relocate (history : List MacroChange) :
    (ofHistory history).relocate relocate =
      ofHistory (history.map (MacroChange.relocate relocate)) := by
  induction history using List.reverseRecOn with
  | nil => rfl
  | append_singleton history change ih =>
    rw [ofHistory_append, apply_relocate, ih, List.map_append, List.map_singleton,
      ofHistory_append]

end MacroTable

namespace Directive

/-! ## Definitions and removals that are accepted -/

/-- The definition that a directive holds, if it is accepted. -/
def define? (tokens : List Token) : Option MacroDefine := do
  let inner ← body? tokens
  let name ← inner.head?.bind Token.name?
  let (params, rest) ← head? inner.tail
  let body ← definitionBody? rest
  match params with
  | some params => some ⟨name, .fixed params.length, .defined params body⟩
  | none => some ⟨name, .noArgs, .defined [] body⟩

/-- The name that a directive removes, if it is accepted. -/
def undefine? (tokens : List Token) : Option String :=
  match body? tokens with
  | some [token] => token.name?
  | _ => none

theorem toOption_readDefine (tokens : List Token) :
    (readDefine tokens).toOption = define? tokens := by
  unfold readDefine define? body
  cases body? tokens with
  | none => rfl
  | some inner =>
    simp only [bind, Except.bind, Option.bind_some]
    cases inner.head?.bind Token.name? with
    | none => rfl
    | some name =>
      cases head? inner.tail with
      | none => rfl
      | some found =>
        obtain ⟨params, rest⟩ := found
        simp only [Option.bind_some]
        cases definitionBody? rest with
        | none => rfl
        | some body => cases params <;> rfl

theorem toOption_readUndef (tokens : List Token) :
    (readUndef tokens).toOption = undefine? tokens := by
  unfold readUndef undefine? body
  cases body? tokens with
  | none => rfl
  | some inner =>
    match inner with
    | [] | _ :: _ :: _ => rfl
    | [token] =>
      simp only [bind, Except.bind]
      cases token.name? with
      | none => rfl
      | some name => rfl

/-! ## What an accepted definition holds -/

/-- Parameters are variables among the tokens before the rest. -/
def Names (params : List String) (front : List Token) : Prop :=
  ∀ param ∈ params, ∃ token ∈ front, token.lexeme = .var param

theorem Names.mono {params : List String} {front front' : List Token} (h : Names params front)
    (hsub : front ⊆ front') : Names params front' := by
  intro param hparam
  obtain ⟨token, htoken, hvar⟩ := h param hparam
  exact ⟨token, hsub htoken, hvar⟩

theorem WritesNames.names {params : List String} {list : List Token} (h : WritesNames params list) :
    Names params list := by
  induction h with
  | @single _ token hparam => exact List.forall_mem_singleton.2 ⟨token, by simp, hparam⟩
  | @cons _ _ token _ _ hparam _ _ ih =>
    exact List.forall_mem_cons.2 ⟨⟨token, by simp, hparam⟩, ih.mono fun _ => by simp +contextual⟩

theorem WritesParameters.names {params : Option (List String)} {parameters : List Token}
    (h : WritesParameters params parameters) : Names (params.getD []) parameters := by
  cases h with
  | absent | empty => exact nofun
  | listed _ hlist _ => exact hlist.names.mono fun _ => by simp +contextual

theorem WritesBody.suffix {body written : List Token} (h : WritesBody body written) :
    body <:+ written := by
  cases h with
  | absent => exact List.suffix_rfl
  | given => exact List.suffix_cons _ _

/-- A body stands in its directive as it is, before the last two tokens, and the parameters stand
before the body. -/
theorem exists_of_define? {tokens : List Token} {define : MacroDefine}
    (h : define? tokens = some define) :
    ∃ params body front close stop, define.definition = .defined params body ∧
      define.arity.Fits params ∧ Names params front ∧ tokens = front ++ body ++ [close, stop] := by
  match tokens with
  | [] | [_] => cases h
  | minus :: word :: rest =>
    have hread : readDefine (minus :: word :: rest) = .ok define := by
      rw [← toOption_readDefine] at h
      cases hread : readDefine (minus :: word :: rest) with
      | error =>
        rw [hread] at h
        cases h
      | ok read =>
        rw [hread] at h
        exact congrArg Except.ok (Option.some.inj h)
    cases writes_of_readDefine hread with
    | @mk name params body parameters written opening named closing stop _ _ hparameters hbody =>
      obtain ⟨comma, rfl⟩ := hbody.suffix
      have hnames : Names (params.getD [])
          (minus :: word :: opening :: named :: (parameters ++ comma)) :=
        hparameters.names.mono fun _ => by simp +contextual
      cases params with
      | none => exact ⟨[], body, _, closing, stop, rfl, rfl, hnames, by simp⟩
      | some params => exact ⟨params, body, _, closing, stop, rfl, rfl, hnames, by simp⟩

theorem wellFormed_readDefine {tokens : List Token} {define : MacroDefine}
    (htokens : ∀ token ∈ tokens, token.Lexed) (h : readDefine tokens = .ok define) :
    MacroEntry.WellFormed ⟨define.arity, define.definition⟩ := by
  have hdefine : define? tokens = some define := by
    rw [← toOption_readDefine, h]
    rfl
  obtain ⟨params, body, front, close, stop, hdefinition, hfits, hnames, rfl⟩ :=
    exists_of_define? hdefine
  intro params' body' hdefinition'
  obtain ⟨rfl, rfl⟩ := MacroDefinition.defined.inj (hdefinition.symm.trans hdefinition')
  refine ⟨fun param hparam => ?_, hfits⟩
  obtain ⟨token, htoken, hvar⟩ := hnames param hparam
  exact htokens token (by simp [htoken]) param hvar

/-! ## Lines do not matter -/

section

variable {relocate : Token → Token} (h : Token.KeepsLexemes relocate)

include h

theorem isPunct_relocate (mark : Punct) (token : Token) :
    (relocate token).isPunct mark = token.isPunct mark := by
  simp only [Token.isPunct, h token]

theorem isDot_relocate (token : Token) : (relocate token).isDot = token.isDot := by
  simp only [Token.isDot, h token]

theorem name?_relocate (token : Token) : (relocate token).name? = token.name? := by
  simp only [Token.name?, h token]

theorem varName?_relocate (token : Token) : varName? (relocate token) = varName? token := by
  simp only [varName?, h token]

theorem body?_relocate (tokens : List Token) :
    body? (tokens.map relocate) = (body? tokens).map (List.map relocate) := by
  match tokens with
  | [] | [_] | [_, _] => rfl
  | _ :: _ :: first :: rest =>
    simp only [List.map_cons, body?, ← List.map_reverse]
    rcases rest.reverse with _ | ⟨last, _ | ⟨close, inner⟩⟩
    · rfl
    · rfl
    · simp only [List.map_cons, isPunct_relocate h, isDot_relocate h]
      split
      case isTrue => rw [← List.map_reverse, Option.map_some]
      case isFalse => rfl

theorem parametersFrom?_relocate (tokens : List Token) :
    parametersFrom? (tokens.map relocate) =
      (parametersFrom? tokens).map fun (names, rest) => (names, rest.map relocate) := by
  fun_induction parametersFrom? tokens with
  | case1 param separator rest name hname hclose =>
    simp [parametersFrom?, varName?_relocate h, isPunct_relocate h, hname, hclose]
  | case2 param separator rest name hname hclose hcomma ih =>
    simp [parametersFrom?, varName?_relocate h, isPunct_relocate h, hname, hclose, hcomma, ih,
      Function.comp_def]
  | case3 param separator rest name hname hclose hcomma =>
    simp [parametersFrom?, varName?_relocate h, isPunct_relocate h, hname, hclose, hcomma]
  | case4 param separator rest hname =>
    simp [parametersFrom?, varName?_relocate h, hname]
  | case5 tokens hshort =>
    rcases tokens with _ | ⟨param, _ | ⟨separator, rest⟩⟩
    · rfl
    · rfl
    · exact absurd rfl (hshort param separator rest)

theorem parameters?_relocate (tokens : List Token) :
    parameters? (tokens.map relocate) =
      (parameters? tokens).map fun (names, rest) => (names, rest.map relocate) := by
  cases tokens with
  | nil => rfl
  | cons token rest =>
    simp only [List.map_cons, parameters?, isPunct_relocate h]
    split
    case isTrue => rfl
    case isFalse => exact parametersFrom?_relocate h (token :: rest)

theorem head?_relocate (tokens : List Token) :
    head? (tokens.map relocate) =
      (head? tokens).map fun (params, rest) => (params, rest.map relocate) := by
  cases tokens with
  | nil => rfl
  | cons token rest =>
    simp only [List.map_cons, head?, isPunct_relocate h, parameters?_relocate h]
    split
    case isTrue => simp [Function.comp_def]
    case isFalse => rfl

theorem definitionBody?_relocate (tokens : List Token) :
    definitionBody? (tokens.map relocate) = (definitionBody? tokens).map (List.map relocate) := by
  cases tokens with
  | nil => rfl
  | cons token rest =>
    simp only [List.map_cons, definitionBody?, isPunct_relocate h]
    split
    case isTrue => rfl
    case isFalse => rfl

theorem define?_relocate (tokens : List Token) :
    define? (tokens.map relocate) = (define? tokens).map (MacroDefine.relocate relocate) := by
  unfold define?
  rw [body?_relocate h]
  cases body? tokens with
  | none => rfl
  | some inner =>
    simp only [Option.map_some, Option.bind_eq_bind, Option.bind_some, List.head?_map,
      ← List.map_tail, Option.bind_map, head?_relocate h]
    have hname : Token.name? ∘ relocate = Token.name? := funext (name?_relocate h)
    rw [hname]
    cases inner.head?.bind Token.name? with
    | none => rfl
    | some name =>
      cases head? inner.tail with
      | none => rfl
      | some found =>
        obtain ⟨params, rest⟩ := found
        simp only [Option.bind_some, Function.comp_apply, definitionBody?_relocate h]
        cases definitionBody? rest with
        | none => rfl
        | some body => cases params <;> rfl

theorem undefine?_relocate (tokens : List Token) :
    undefine? (tokens.map relocate) = undefine? tokens := by
  unfold undefine?
  rw [body?_relocate h]
  match body? tokens with
  | none | some [] | some (_ :: _ :: _) => rfl
  | some [token] => exact name?_relocate h token

end

end Directive

end HeaderForms
