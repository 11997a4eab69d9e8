-- SUMMARY: Every declaration of a header is accounted for.
import HeaderForms.Proofs.Session
import HeaderForms.Proofs.Declaration.Parser
import HeaderForms.Proofs.Header.Chunks

/-!
# Accounts of headers

The text of a header is cut at its end markers. Each piece has one fate: it changes the macro table,
it is a directive that is passed over, it becomes an attribute or a form, or it is reported in a
warning or an error. An account gives the fates of all pieces in their order, and the form of the
header and what it adds to a session are read off the account.
-/

namespace HeaderForms

/-! ## Fates -/

/-- What becomes of a declaration of the text. -/
inductive Fate where
  /-- It changed the macro table. -/
  | directive
  /-- It is a directive that is not interpreted. -/
  | ignored
  | attribute (form : Form)
  | topLevel (form : Form)
  | dropped (head : Head) (reason : Obstacle)
  | failed (error : SourceError)

namespace Fate

/-- The outcomes of what the declaration leaves in the header. -/
def outcomes : Fate → List Declaration.Outcome
  | .directive => []
  | .ignored => [.nothing]
  | .attribute form => [.attribute form]
  | .topLevel form => [.topLevel form]
  | .dropped head reason => [.dropped (.declaration head reason)]
  | .failed error => [.failed (.source error)]

def isDirective : Fate → Bool
  | .directive => true
  | _ => false

def isIgnored : Fate → Bool
  | .ignored => true
  | _ => false

def attribute? : Fate → Option Form
  | .attribute form => some form
  | _ => none

def topLevel? : Fate → Option Form
  | .topLevel form => some form
  | _ => none

def warning? : Fate → Option Warning
  | .dropped head reason => some (.declaration head reason)
  | _ => none

def error? : Fate → Option IncludeError
  | .failed error => some (.source error)
  | _ => none

theorem outcomes_injective {fate fate' : Fate} (h : fate.outcomes = fate'.outcomes) :
    fate = fate' := by
  cases fate <;> cases fate' <;> simp_all [outcomes]

/-- What is selected from the outcomes of fates is what is selected from the fates. -/
theorem filterMap_outcomes {α : Type} {select : Declaration.Outcome → Option α}
    {select' : Fate → Option α}
    (h : ∀ fate : Fate, fate.outcomes.filterMap select = (select' fate).toList)
    (fates : List Fate) : (fates.flatMap outcomes).filterMap select = fates.filterMap select' := by
  induction fates with
  | nil => rfl
  | cons fate fates ih =>
    rw [List.flatMap_cons, List.filterMap_append, ih, h, List.filterMap_cons]
    cases select' fate <;> rfl

theorem filterMap_attribute? (fates : List Fate) :
    (fates.flatMap outcomes).filterMap (·.attribute?) = fates.filterMap attribute? :=
  filterMap_outcomes (fun fate => by cases fate <;> rfl) fates

theorem filterMap_topLevel? (fates : List Fate) :
    (fates.flatMap outcomes).filterMap (·.topLevel?) = fates.filterMap topLevel? :=
  filterMap_outcomes (fun fate => by cases fate <;> rfl) fates

theorem filterMap_warning? (fates : List Fate) :
    (fates.flatMap outcomes).filterMap (·.dropped?) = fates.filterMap warning? :=
  filterMap_outcomes (fun fate => by cases fate <;> rfl) fates

theorem filterMap_error? (fates : List Fate) :
    (fates.flatMap outcomes).filterMap (·.failed?) = fates.filterMap error? :=
  filterMap_outcomes (fun fate => by cases fate <;> rfl) fates

/-- Every fate is of one kind. -/
theorem length_eq_kinds (fates : List Fate) :
    fates.length = fates.countP isDirective + fates.countP isIgnored +
      (fates.filterMap attribute?).length + (fates.filterMap topLevel?).length +
      (fates.filterMap warning?).length + (fates.filterMap error?).length := by
  induction fates with
  | nil => rfl
  | cons fate fates ih =>
    cases fate <;>
      simp only [List.length_cons, List.countP_cons, List.filterMap_cons, isDirective, isIgnored,
        attribute?, topLevel?, warning?, error?, if_true, if_false, Bool.false_eq_true] <;> omega

end Fate

namespace Header

/-! ## Single declarations -/

/-- A run of tokens that is no directive. -/
def IsPlain (run : List Token) : Prop :=
  ∀ name ∈ attribute? run, name ∉ "define" :: "undef" :: ignoredDirectives

/-- The declaration of a run, its macro uses expanded. -/
def readRun (context : FileContext) (macros : MacroTable) (run : List Token) :
    Except SourceError Declaration := do
  Declaration.ofTokens (← Expansion.expand macros context run)

/-- The fate of a complete run of tokens, and the macro table behind it. -/
inductive Becomes (context : FileContext) (macros : MacroTable) (run : List Token) :
    Fate → MacroTable → Prop
  | defined {define : MacroDefine} : attribute? run = some "define" →
      Directive.readDefine run = .ok define →
      Becomes context macros run .directive
        (macros.define define.name define.arity define.definition)
  | undefined {name : String} : attribute? run = some "undef" →
      Directive.readUndef run = .ok name →
      Becomes context macros run .directive (macros.undefine name)
  | badDefine {error : SourceError} : attribute? run = some "define" →
      Directive.readDefine run = .error error → Becomes context macros run (.failed error) macros
  | badUndef {error : SourceError} : attribute? run = some "undef" →
      Directive.readUndef run = .error error → Becomes context macros run (.failed error) macros
  | ignored {name : String} : attribute? run = some name → name ∈ ignoredDirectives →
      Becomes context macros run .ignored macros
  | unread {error : SourceError} : IsPlain run → readRun context macros run = .error error →
      Becomes context macros run (.failed error) macros
  | attribute {declaration : Declaration} {form : Form} : IsPlain run →
      readRun context macros run = .ok declaration → declaration.outcome [] = .attribute form →
      Becomes context macros run (.attribute form) macros
  | topLevel {declaration : Declaration} {form : Form} : IsPlain run →
      readRun context macros run = .ok declaration → declaration.outcome [] = .topLevel form →
      Becomes context macros run (.topLevel form) macros
  | dropped {declaration : Declaration} {head : Head} {reason : Obstacle} : IsPlain run →
      readRun context macros run = .ok declaration →
      declaration.outcome [] = .dropped (.declaration head reason) →
      Becomes context macros run (.dropped head reason) macros

theorem isRead_of_readRun {context : FileContext} {macros : MacroTable} {run : List Token}
    {declaration : Declaration} (h : readRun context macros run = .ok declaration) :
    declaration.IsRead := by
  unfold readRun at h
  cases hexpand : Expansion.expand macros context run with
  | error =>
    rw [hexpand] at h
    cases h
  | ok tokens =>
    rw [hexpand] at h
    exact Declaration.isRead_of_ofTokens h

/-- Declarations have the outcomes that fates say, and none is the typed half of a record. -/
structure Leaves (fates : List Fate) (declarations : List Declaration) : Prop where
  outcomes : declarations.map (·.outcome []) = fates.flatMap Fate.outcomes
  untyped : declarations.filterMap (·.typedRecord?) = []

theorem Leaves.append {fates fates' : List Fate} {declarations declarations' : List Declaration}
    (h : Leaves fates declarations) (h' : Leaves fates' declarations') :
    Leaves (fates ++ fates') (declarations ++ declarations') where
  outcomes := by rw [List.map_append, List.flatMap_append, h.outcomes, h'.outcomes]
  untyped := by rw [List.filterMap_append, h.untyped, h'.untyped, List.append_nil]

theorem splitRecord_false (declaration : Declaration) :
    splitRecord false declaration = [declaration] := by
  cases declaration <;> rfl

theorem readPlain_eq (context : FileContext) (macros : MacroTable) (run : List Token) :
    readPlain false context macros run =
      (readRun context macros run).map fun declaration => [declaration] := by
  unfold readPlain readRun
  cases Expansion.expand macros context run with
  | error => rfl
  | ok tokens =>
    simp only [bind, Except.bind, pure, Except.pure, splitRecord_false]
    rfl

/-- What is neither a definition nor a removal of a macro is passed over or read. -/
theorem readChunk_of_ne {context : FileContext} {macros : MacroTable} {run : List Token}
    (hdefine : attribute? run ≠ some "define") (hundef : attribute? run ≠ some "undef") :
    readChunk false context macros run =
      match (attribute? run).filter ignoredDirectives.contains with
      | some name => ([.ignored name], macros)
      | none =>
        match readRun context macros run with
        | .ok declaration => ([declaration], macros)
        | .error error => ([.unreadable error], macros) := by
  unfold readChunk
  split
  case h_1 hname => exact absurd hname hdefine
  case h_2 hname => exact absurd hname hundef
  case h_3 =>
    rw [readPlain_eq]
    cases readRun context macros run with
    | ok declaration => rfl
    | error error => rfl

theorem readChunk_of_isPlain {context : FileContext} {macros : MacroTable} {run : List Token}
    (h : IsPlain run) :
    readChunk false context macros run =
      match readRun context macros run with
      | .ok declaration => ([declaration], macros)
      | .error error => ([.unreadable error], macros) := by
  have hne : ∀ name, name ∈ "define" :: "undef" :: ignoredDirectives →
      attribute? run ≠ some name :=
    fun name hmem hname => h name hname hmem
  have hfilter : (attribute? run).filter ignoredDirectives.contains = none := by
    refine Option.filter_eq_none_iff.2 fun name hname => ?_
    have hnot := h name hname
    simp only [List.mem_cons, not_or] at hnot
    simpa using hnot.2.2
  rw [readChunk_of_ne (hne _ (by simp)) (hne _ (by simp)), hfilter]

theorem readChunk_of_ignored {context : FileContext} {macros : MacroTable} {run : List Token}
    {name : String} (hname : attribute? run = some name) (hmem : name ∈ ignoredDirectives) :
    readChunk false context macros run = ([.ignored name], macros) := by
  have hne : ∀ other, other ∉ ignoredDirectives → attribute? run ≠ some other := by
    rintro other hother hsome
    rw [hname] at hsome
    cases hsome
    exact hother hmem
  rw [readChunk_of_ne (hne _ (by decide)) (hne _ (by decide)), hname,
    Option.filter_some_pos (by simpa using hmem)]

/-- What the reader leaves of a run is what its fate says. -/
theorem Becomes.readChunk_eq {context : FileContext} {macros macros' : MacroTable}
    {run : List Token} {fate : Fate} (h : Becomes context macros run fate macros') :
    ∃ declarations, readChunk false context macros run = (declarations, macros') ∧
      Leaves [fate] declarations := by
  cases h with
  | defined hname hread | undefined hname hread =>
    exact ⟨[], by simp only [readChunk, hname, hread], rfl, rfl⟩
  | badDefine hname hread | badUndef hname hread =>
    exact ⟨[.unreadable _], by simp only [readChunk, hname, hread], rfl, rfl⟩
  | ignored hname hmem => exact ⟨[.ignored _], readChunk_of_ignored hname hmem, rfl, rfl⟩
  | unread hplain hread =>
    exact ⟨[.unreadable _], by rw [readChunk_of_isPlain hplain, hread], rfl, rfl⟩
  | «attribute» hplain hread houtcome | topLevel hplain hread houtcome
  | dropped hplain hread houtcome =>
    refine ⟨[_], by rw [readChunk_of_isPlain hplain, hread], congrArg ([·]) houtcome, ?_⟩
    rw [List.filterMap_cons_none (Declaration.typedRecord?_eq_none (isRead_of_readRun hread)), List.filterMap_nil]

theorem Becomes.unique {context : FileContext} {macros macros₁ macros₂ : MacroTable}
    {run : List Token} {fate₁ fate₂ : Fate} (h₁ : Becomes context macros run fate₁ macros₁)
    (h₂ : Becomes context macros run fate₂ macros₂) : fate₁ = fate₂ ∧ macros₁ = macros₂ := by
  obtain ⟨declarations, hread₁, hleaves₁⟩ := h₁.readChunk_eq
  obtain ⟨declarations', hread₂, hleaves₂⟩ := h₂.readChunk_eq
  obtain ⟨rfl, rfl⟩ := Prod.mk.inj (hread₁.symm.trans hread₂)
  have houtcomes : [fate₁].flatMap Fate.outcomes = [fate₂].flatMap Fate.outcomes :=
    hleaves₁.outcomes.symm.trans hleaves₂.outcomes
  exact ⟨Fate.outcomes_injective (by simpa using houtcomes), rfl⟩

theorem exists_becomes_of_isPlain {run : List Token} (h : IsPlain run) (context : FileContext)
    (macros : MacroTable) : ∃ fate macros', Becomes context macros run fate macros' := by
  cases hread : readRun context macros run with
  | error error => exact ⟨.failed error, macros, .unread h hread⟩
  | ok declaration =>
    obtain ⟨form, houtcome⟩ | ⟨form, houtcome⟩ | ⟨head, reason, houtcome⟩ :=
      Declaration.outcome_of_isRead (isRead_of_readRun hread)
    · exact ⟨.attribute form, macros, .attribute h hread houtcome⟩
    · exact ⟨.topLevel form, macros, .topLevel h hread houtcome⟩
    · exact ⟨.dropped head reason, macros, .dropped h hread houtcome⟩

/-- No declaration is without a fate. -/
theorem exists_becomes (context : FileContext) (macros : MacroTable) (run : List Token) :
    ∃ fate macros', Becomes context macros run fate macros' := by
  by_cases hplain : IsPlain run
  case pos => exact exists_becomes_of_isPlain hplain context macros
  case neg =>
    simp only [IsPlain, Classical.not_forall, Classical.not_not] at hplain
    obtain ⟨name, hname, hmem⟩ := hplain
    obtain rfl | rfl | hignored : name = "define" ∨ name = "undef" ∨ name ∈ ignoredDirectives := by
      simpa using hmem
    · cases hread : Directive.readDefine run with
      | ok define => exact ⟨_, _, .defined hname hread⟩
      | error error => exact ⟨_, _, .badDefine hname hread⟩
    · cases hread : Directive.readUndef run with
      | ok name => exact ⟨_, _, .undefined hname hread⟩
      | error error => exact ⟨_, _, .badUndef hname hread⟩
    · exact ⟨_, _, .ignored hname hignored⟩

/-! ## Whole headers -/

/-- The fates of the declarations in tokens, in their order, and the macro table behind them. A
declaration ends at the first end marker; tokens behind the last one are a declaration without its
end marker. -/
inductive Account (context : FileContext) :
    MacroTable → List Token → List Fate → MacroTable → Prop
  | nil {macros : MacroTable} : Account context macros [] [] macros
  | unfinished {macros : MacroTable} {run : List Token} : run ≠ [] →
      (∀ token ∈ run, token.lexeme ≠ .dot) →
      Account context macros run [.failed ⟨Directive.line run, .missingEndMarker⟩] macros
  | cons {macros macros' macros'' : MacroTable} {run rest : List Token} {stop : Token}
      {fate : Fate} {fates : List Fate} : (∀ token ∈ run, token.lexeme ≠ .dot) →
      stop.lexeme = .dot → Becomes context macros (run ++ [stop]) fate macros' →
      Account context macros' rest fates macros'' →
      Account context macros (run ++ stop :: rest) (fate :: fates) macros''

/-- How many declarations the text has: one for each end marker and one for what is behind the
last of them. -/
def declarationCount (tokens : List Token) : Nat :=
  tokens.countP Token.isDot + if tokens.getLast?.any fun token => !token.isDot then 1 else 0

variable {context : FileContext} {macros macros' : MacroTable} {tokens : List Token}
  {fates : List Fate}

/-- There is one fate for each declaration. -/
theorem Account.length_eq (h : Account context macros tokens fates macros') :
    fates.length = declarationCount tokens := by
  unfold declarationCount
  induction h with
  | nil => rfl
  | @unfinished macros run hrun hnot =>
    have hcount : run.countP Token.isDot = 0 :=
      List.countP_eq_zero.2 fun token htoken => by simp [isDot_eq_false hnot token htoken]
    have hlast : (run.getLast?.any fun token => !token.isDot) = true := by
      rw [List.getLast?_eq_some_getLast hrun]
      simp [isDot_eq_false hnot _ (List.getLast_mem hrun)]
    rw [hcount, if_pos hlast]
    rfl
  | @cons macros macros' macros'' run rest stop fate fates hnot hstop _ _ ih =>
    have hdot : stop.isDot = true := decide_eq_true hstop
    have hcount : (run ++ stop :: rest).countP Token.isDot = rest.countP Token.isDot + 1 := by
      rw [List.countP_append, List.countP_cons_of_pos hdot,
        List.countP_eq_zero.2 fun token htoken => by simp [isDot_eq_false hnot token htoken]]
      omega
    have hlast : ((run ++ stop :: rest).getLast?.any fun token => !token.isDot) =
        rest.getLast?.any fun token => !token.isDot := by
      cases rest with
      | nil => simp [hdot]
      | cons next rest => simp [List.getLast?_append, List.getLast?_cons]
    rw [hcount, hlast, List.length_cons, ih]
    omega

/-- The first declaration of tokens is settled. -/
theorem eq_of_append_stop {run run' rest rest' : List Token} {stop stop' : Token}
    (hrun : ∀ token ∈ run, token.lexeme ≠ .dot) (hrun' : ∀ token ∈ run', token.lexeme ≠ .dot)
    (hstop : stop.lexeme = .dot) (hstop' : stop'.lexeme = .dot)
    (h : run ++ stop :: rest = run' ++ stop' :: rest') :
    run = run' ∧ stop = stop' ∧ rest = rest' := by
  induction run generalizing run' with
  | nil =>
    cases run' with
    | nil => exact ⟨rfl, List.cons.inj h⟩
    | cons token run' =>
      obtain ⟨rfl, -⟩ := List.cons.inj h
      exact absurd hstop (hrun' stop List.mem_cons_self)
  | cons token run ih =>
    cases run' with
    | nil =>
      obtain ⟨rfl, -⟩ := List.cons.inj h
      exact absurd hstop' (hrun token List.mem_cons_self)
    | cons token' run' =>
      obtain ⟨rfl, htail⟩ := List.cons.inj h
      obtain ⟨rfl, hrest⟩ := ih (fun other hmem => hrun other (List.mem_cons_of_mem _ hmem))
        (fun other hmem => hrun' other (List.mem_cons_of_mem _ hmem)) htail
      exact ⟨rfl, hrest⟩

theorem Account.unique {fates₁ fates₂ : List Fate} {macros₁ macros₂ : MacroTable}
    (h₁ : Account context macros tokens fates₁ macros₁)
    (h₂ : Account context macros tokens fates₂ macros₂) : fates₁ = fates₂ ∧ macros₁ = macros₂ := by
  induction h₁ generalizing fates₂ with
  | nil =>
    generalize htokens : ([] : List Token) = tokens at h₂
    cases h₂ with
    | nil => exact ⟨rfl, rfl⟩
    | unfinished hrun => exact absurd htokens.symm hrun
    | cons => simp at htokens
  | @unfinished macros run hrun hnot =>
    generalize htokens : run = tokens at h₂
    cases h₂ with
    | nil => exact absurd htokens hrun
    | unfinished => exact ⟨rfl, rfl⟩
    | cons _ hstop => exact absurd hstop (hnot _ (by simp [htokens]))
  | @cons macros macros' macros'' run rest stop fate fates hnot hstop hfate _ ih =>
    generalize htokens : run ++ stop :: rest = tokens at h₂
    cases h₂ with
    | nil => simp at htokens
    | unfinished _ hnot' => exact absurd hstop (hnot' stop (by simp [← htokens]))
    | cons hnot' hstop' hfate' hrest' =>
      obtain ⟨rfl, rfl, rfl⟩ := eq_of_append_stop hnot hnot' hstop hstop' htokens
      obtain ⟨rfl, rfl⟩ := hfate.unique hfate'
      obtain ⟨rfl, rfl⟩ := ih hrest'
      exact ⟨rfl, rfl⟩

theorem readChunks_cons {chunk : List Token} (hcomplete : isComplete chunk = true)
    {declarations : List Declaration}
    (h : readChunk false context macros chunk = (declarations, macros'))
    (chunks : List (List Token)) :
    (readChunks false context macros (chunk :: chunks)).1.map (·.declaration) =
        declarations ++ (readChunks false context macros' chunks).1.map (·.declaration) ∧
      (readChunks false context macros (chunk :: chunks)).2 =
        (readChunks false context macros' chunks).2 := by
  rw [readChunks, if_pos hcomplete, h]
  exact ⟨by simp [Function.comp_def], rfl⟩

/-- What the reader leaves of the declarations in tokens is what their fates say. By induction on
the declarations, the tokens without an end marker being left over. -/
theorem exists_account (context : FileContext) (macros : MacroTable) (tokens : List Token) :
    let read := readChunks false context macros (chunks tokens)
    ∃ fates, Account context macros tokens fates read.2 ∧
      Leaves fates (read.1.map (·.declaration)) := by
  obtain ⟨declared, rest, hdeclared, hrest, rfl⟩ := exists_declarations tokens
  induction declared generalizing macros with
  | nil =>
    rw [List.flatten_nil, List.nil_append, chunks_of_ne_dot hrest]
    cases rest with
    | nil => exact ⟨[], .nil, rfl, rfl⟩
    | cons token rest =>
      rw [if_neg (by simp), readChunks, isComplete_eq_false hrest, if_neg Bool.false_ne_true]
      exact ⟨_, .unfinished (by simp) hrest, rfl, rfl⟩
  | cons chunk declared ih =>
    obtain ⟨hchunk, hdeclared⟩ := List.forall_mem_cons.1 hdeclared
    obtain ⟨fate, macros', hfate⟩ := exists_becomes context macros chunk
    obtain ⟨declarations, hread, hleaves⟩ := hfate.readChunk_eq
    obtain ⟨fates, haccount, hothers⟩ := ih macros' hdeclared
    obtain ⟨hdeclarations, hmacros⟩ :=
      readChunks_cons hchunk.isComplete hread (chunks (declared.flatten ++ rest))
    rw [List.flatten_cons, List.append_assoc, chunks_append hchunk]
    obtain ⟨run, stop, rfl, hrun, hstop⟩ := hchunk
    refine ⟨fate :: fates, ?_, ?_⟩
    · rw [hmacros, List.append_assoc, List.singleton_append]
      exact .cons hrun hstop hfate haccount
    · rw [hdeclarations]
      exact hleaves.append hothers

/-! ## The form of a header -/

/-- No record has a typed half, save in the legacy encoding. -/
theorem untyped_ofTokens (file : String) (tokens : List Token) :
    (ofTokens false file tokens).declarations.filterMap (·.declaration.typedRecord?) = [] := by
  obtain ⟨_, _, hleaves⟩ := exists_account (.ofFile file) initialMacros tokens
  have huntyped := hleaves.untyped
  rw [List.filterMap_map] at huntyped
  unfold ofTokens
  rw [List.filterMap_append]
  exact List.append_eq_nil_iff.2 ⟨huntyped, rfl⟩

theorem outcomes_ofTokens (file : String) (tokens : List Token) :
    ∃ fates, Account (.ofFile file) initialMacros tokens fates (ofTokens false file tokens).macros ∧
      (ofTokens false file tokens).outcomes = fates.flatMap Fate.outcomes ++ [.nothing] := by
  obtain ⟨fates, haccount, hleaves⟩ := exists_account (.ofFile file) initialMacros tokens
  refine ⟨fates, haccount, ?_⟩
  have houtcomes := hleaves.outcomes
  rw [List.map_map] at houtcomes
  rw [outcomes, DeclarationForms.outcomes, untyped_ofTokens, ← houtcomes]
  exact List.map_append

theorem calls_of_mem_definitions {table : MacroTable} {form : Form}
    (h : form ∈ table.definitions.filterMap (·.1)) : form.Calls "defmacro" := by
  obtain ⟨definition, hdefinition, hform⟩ := List.mem_filterMap.1 h
  obtain ⟨⟨name, entries⟩, -, rfl⟩ := List.mem_map.1 hdefinition
  change MacroForm.definition? name _ = some form at hform
  unfold MacroForm.definition? at hform
  split at hform
  case isTrue => cases hform
  case isFalse =>
    cases hform
    exact ⟨_, rfl⟩

theorem isMacroClause_of_mem_clauses {name : String} {warning : Warning}
    {entries : List (MacroArity × List String × List Token)}
    (h : warning ∈ (MacroForm.clauses name entries).2) :
    ∃ arity reason, warning = .macroClause name arity reason := by
  induction entries with
  | nil => cases h
  | cons entry entries ih =>
    obtain ⟨arity, params, body⟩ := entry
    simp only [MacroForm.clauses] at h
    split at h
    case h_1 => exact ih h
    case h_2 obstacle _ =>
      rcases List.mem_cons.1 h with rfl | h
      · exact ⟨arity, obstacle, rfl⟩
      · exact ih h

theorem isMacroClause_of_mem_definitions {table : MacroTable} {warning : Warning}
    (h : warning ∈ table.definitions.flatMap (·.2)) :
    ∃ name arity reason, warning = .macroClause name arity reason := by
  obtain ⟨definition, hdefinition, hwarning⟩ := List.mem_flatMap.1 h
  obtain ⟨⟨name, entries⟩, -, rfl⟩ := List.mem_map.1 hdefinition
  exact ⟨name, isMacroClause_of_mem_clauses hwarning⟩

theorem not_calls_of_mem_topLevels {header : Header} {form : Form}
    (h : form ∈ header.outcomes.filterMap (·.topLevel?)) : ¬ form.Calls "defmacro" := by
  intro hmacro
  obtain ⟨outcome, houtcome, hform⟩ := List.mem_filterMap.1 h
  obtain ⟨declaration, -, rfl⟩ := List.mem_map.1 houtcome
  obtain ⟨head, hhead, hcalls⟩ := Declaration.exists_calls_of_topLevel? hform
  obtain rfl := hcalls.head_eq hmacro
  exact absurd hhead (by decide)

section

variable {header : Header} (h : header.outcomes = fates.flatMap Fate.outcomes ++ [.nothing])

include h

/-- The end of the file adds nothing to what the fates say. -/
theorem filterMap_of_fates {α : Type} {select : Declaration.Outcome → Option α}
    (hnothing : select .nothing = none) :
    header.outcomes.filterMap select = (fates.flatMap Fate.outcomes).filterMap select := by
  rw [h, List.filterMap_append, List.filterMap_cons_none hnothing, List.filterMap_nil,
    List.append_nil]

theorem toForm_of_fates (session : Session) :
    header.toForm session =
      (Form.call "progn"
        (extension (fates.filterMap Fate.attribute?) ++ fates.filterMap Fate.topLevel? ++
          header.macros.definitions.filterMap (·.1)),
        session.extend (fates.filterMap Fate.error?)
          (fates.filterMap Fate.warning? ++ header.macros.definitions.flatMap (·.2))) := by
  rw [toForm_eq, items, errors, warnings, filterMap_of_fates h rfl, filterMap_of_fates h rfl,
    filterMap_of_fates h rfl, filterMap_of_fates h rfl, Fate.filterMap_attribute?,
    Fate.filterMap_topLevel?, Fate.filterMap_error?, Fate.filterMap_warning?]

end

/-- No declaration of a header is lost: each has one fate, its kinds add up to the number of
declarations, and the form of the header and its diagnostics are those of the fates in order. -/
theorem account_ofText {file source : String} {tokens : List Token}
    (h : Token.ofText source = .ok tokens) :
    ∃ header fates definitions macroWarnings,
      ofText false file source = .ok header ∧
      (∀ fates' macros, Account (.ofFile file) initialMacros tokens fates' macros ↔
        fates' = fates ∧ macros = header.macros) ∧
      declarationCount tokens =
        fates.countP Fate.isDirective + fates.countP Fate.isIgnored +
          (fates.filterMap Fate.attribute?).length + (fates.filterMap Fate.topLevel?).length +
          (fates.filterMap Fate.warning?).length + (fates.filterMap Fate.error?).length ∧
      (∀ form ∈ fates.filterMap Fate.topLevel?, ¬ form.Calls "defmacro") ∧
      (∀ form ∈ definitions, form.Calls "defmacro") ∧
      (∀ warning ∈ macroWarnings, ∃ name arity reason, warning = .macroClause name arity reason) ∧
      ∀ session : Session, header.toForm session =
        (Form.call "progn"
          ((if (fates.filterMap Fate.attribute?).isEmpty then []
            else [Form.call "extend-module" [Form.nil, .list (fates.filterMap Fate.attribute?)]]) ++
            fates.filterMap Fate.topLevel? ++ definitions),
          session.extend (fates.filterMap Fate.error?)
            (fates.filterMap Fate.warning? ++ macroWarnings)) := by
  obtain ⟨fates, haccount, houtcomes⟩ := outcomes_ofTokens file tokens
  have htopLevels : (ofTokens false file tokens).outcomes.filterMap (·.topLevel?) =
      fates.filterMap Fate.topLevel? := by
    rw [filterMap_of_fates houtcomes rfl, Fate.filterMap_topLevel?]
  refine ⟨ofTokens false file tokens, fates, _, _, by rw [ofText, h]; rfl,
    fun fates' macros => ⟨fun haccount' => haccount'.unique haccount, ?_⟩, ?_,
    fun form hform => not_calls_of_mem_topLevels (htopLevels ▸ hform),
    fun form hform => calls_of_mem_definitions hform,
    fun warning hwarning => isMacroClause_of_mem_definitions hwarning,
    fun session => toForm_of_fates houtcomes session⟩
  · rintro ⟨rfl, rfl⟩
    exact haccount
  · rw [← haccount.length_eq, Fate.length_eq_kinds]

/-- A directive, an attribute and a declaration without its end marker. -/
def accountSample : List Token :=
  [⟨.punct .minus, 1⟩, ⟨.atom "endif", 1⟩, ⟨.dot, 1⟩, ⟨.punct .minus, 2⟩, ⟨.atom "b", 2⟩,
    ⟨.punct .openParen, 2⟩, ⟨.atom "c", 2⟩, ⟨.punct .closeParen, 2⟩, ⟨.dot, 2⟩, ⟨.atom "d", 3⟩]

theorem account_sample :
    ∃ header fates, ofText false "a.hrl" "-endif.\n-b(c).\nd" = .ok header ∧
      Account (.ofFile "a.hrl") initialMacros accountSample fates header.macros ∧
      fates.countP Fate.isDirective + fates.countP Fate.isIgnored +
        (fates.filterMap Fate.attribute?).length + (fates.filterMap Fate.topLevel?).length +
        (fates.filterMap Fate.warning?).length + (fates.filterMap Fate.error?).length = 3 := by
  have htokens : Token.ofText "-endif.\n-b(c).\nd" = .ok accountSample := by rfl
  obtain ⟨header, fates, definitions, macroWarnings, hread, haccount, hcount, -⟩ :=
    account_ofText htokens
  have hthree : declarationCount accountSample = 3 := by decide
  exact ⟨header, fates, hread, (haccount fates _).2 ⟨rfl, rfl⟩, hcount.symm.trans hthree⟩

end Header

end HeaderForms
