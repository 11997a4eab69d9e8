-- SUMMARY: The forms of macros: one definition with a clause for each arity.
import HeaderForms.Expr.Parser
import HeaderForms.Expr.ToForm
import HeaderForms.Macro.Calls
import HeaderForms.Session

/-!
# Forms of macros

Each macro name becomes one `defmacro` with a clause for each arity, fixed arities first. A clause
is a backquoted template: the macros used in the body become calls, the body is parsed and converted
as an expression, and then every parameter in it becomes an unquote. An arity whose body has no form
is dropped with a warning, and a name without any clause has no definition.
-/

namespace HeaderForms

namespace MacroForm

/-! ## Clauses -/

/-- The tokens of a body as one expression with its end marker. -/
def expressionTokens (body : List Token) : List Token :=
  let tokens := MacroUse.toCalls body
  tokens ++ [⟨.dot, (tokens.getLast?.map (·.line)).getD 0⟩]

/-- The form of a macro body. -/
def bodyForm (body : List Token) : Except Obstacle Form :=
  match Expr.ofTokens (expressionTokens body) with
  | .ok expr => expr.toForm.mapError .conversion
  | .error error => .error (.source error)

def unquotes (params : List String) : List (Form × Form) :=
  params.map fun param => (.symbol param, Form.comma (.symbol param))

/-- The backquoted body with every parameter unquoted. -/
def template (params : List String) (form : Form) : Form :=
  (Form.backquote form).substitute (unquotes params)

/-- The pattern of a clause: any arguments, or exactly one for each parameter. -/
def pattern (params : List String) : MacroArity → Form
  | .noArgs => .list [.symbol "_"]
  | .fixed _ => .list [Form.call "list" (params.map .symbol)]

def clause (arity : MacroArity) (params : List String) (body : List Token) :
    Except Obstacle Form := do
  return .list [pattern params arity, template params (← bodyForm body)]

/-! ## Definitions -/

/-- The entries that have a body, those of fixed arity first. -/
def definedEntries (entries : List MacroEntry) : List (MacroArity × List String × List Token) :=
  let defined := entries.filterMap fun entry =>
    match entry.definition with
    | .defined params body => some (entry.arity, params, body)
    | _ => none
  defined.filter (·.1 ≠ .noArgs) ++ defined.filter (·.1 = .noArgs)

/-- The clauses of a macro and the warnings about those that were dropped, each in order. -/
def clauses (name : String) :
    List (MacroArity × List String × List Token) → List Form × List Warning
  | [] => ([], [])
  | (arity, params, body) :: rest =>
    let (forms, warnings) := clauses name rest
    match clause arity params body with
    | .ok form => (form :: forms, warnings)
    | .error obstacle => (forms, .macroClause name arity obstacle :: warnings)

/-- The definition of a macro, if a clause is left of it. -/
def definition? (name : String) (clauses : List Form) : Option Form :=
  if clauses.isEmpty then none else some (Form.call "defmacro" (.symbol name :: clauses))

/-- The definition of a macro, with the warnings about its clauses. -/
def ofEntries (name : String) (entries : List MacroEntry) : Option Form × List Warning :=
  let (forms, warnings) := clauses name (definedEntries entries)
  (definition? name forms, warnings)

end MacroForm

/-- The macro definitions of a table, in the order of names. -/
def MacroTable.toForms (table : MacroTable) (session : Session) : List Form × Session :=
  let definitions := table.macros.map fun (name, entries) => MacroForm.ofEntries name entries
  (definitions.filterMap (·.1), (definitions.flatMap (·.2)).foldl Session.addWarning session)

end HeaderForms
