-- SUMMARY: Applying a macro definition to arguments.
import HeaderForms.Form.Printer

/-!
# Templates

A macro definition is `(defmacro name clause...)`. A clause has a pattern, which accepts any
arguments or an exact number of them, and a backquoted template. Applying the macro takes the first
clause that accepts the arguments and fills its template: an unquoted parameter stands for its
argument, which is never evaluated, and a spliced one for the items of its argument. Inside a nested
backquote an unquote is kept and one level is taken off the depth of what it holds.
-/

namespace HeaderForms

inductive ExpandError where
  /-- What was found where a definition was wanted. -/
  | notAMacro (shown : String)
  | malformedClause (name : String) (clause : Form)
  | noMatchingClause (name : String) (count : Nat)
  | unbound (name : Form)
  | badSplice (value : Form)
deriving Repr

namespace ExpandError

def message : ExpandError → String
  | .notAMacro shown => "not a macro definition: " ++ shown
  | .malformedClause name clause => "malformed macro clause in " ++ name ++ ": " ++ clause.text
  | .noMatchingClause name count => s!"no clause of {name} matches {count} argument(s)"
  | .unbound name => "unbound template variable " ++ name.text
  | .badSplice value => "cannot splice non-list value " ++ value.text

/-- The name under which a tool can look the kind of error up. -/
def code : ExpandError → String
  | .notAMacro _ => "hdrinc::expand::not_a_macro"
  | .malformedClause .. => "hdrinc::expand::malformed_clause"
  | .noMatchingClause .. => "hdrinc::expand::no_clause"
  | .unbound _ => "hdrinc::expand::unbound"
  | .badSplice _ => "hdrinc::expand::splice"

end ExpandError

/-! ## Definitions -/

/-- The arguments that a clause accepts. -/
inductive TemplatePattern where
  | any
  | exactly (params : List String)
deriving DecidableEq, Repr

structure TemplateClause where
  pattern : TemplatePattern
  template : Form

/-- A macro definition that is ready to be applied. -/
structure Template where
  name : String
  clauses : List TemplateClause

namespace TemplatePattern

/-- `(_)` or `((list param...))` -/
def ofForm? : Form → Option TemplatePattern
  | .list [pattern] =>
    if pattern.isSymbol "_" then some .any
    else
      match pattern with
      | .list (head :: params) =>
        if head.isSymbol "list" then .exactly <$> params.mapM Form.symbol? else none
      | _ => none
  | _ => none

/-- The arguments that the parameters are bound to, if the pattern accepts them. -/
def bindings? (args : List Form) : TemplatePattern → Option (List (String × Form))
  | .any => some []
  | .exactly params => if params.length = args.length then some (params.zip args) else none

end TemplatePattern

def TemplateClause.ofForm? : Form → Option TemplateClause
  | .list [head, body] => do
    let template ← body.wrapped? "backquote"
    let pattern ← TemplatePattern.ofForm? head
    return ⟨pattern, template⟩
  | _ => none

namespace Template

def clauseOfForm (name : String) (form : Form) : Except ExpandError TemplateClause :=
  match TemplateClause.ofForm? form with
  | some clause => .ok clause
  | none => .error (.malformedClause name form)

/-- Reads a macro definition. -/
def ofForm (form : Form) : Except ExpandError Template :=
  match form with
  | .list (head :: .symbol name :: clauses) =>
    if head.isSymbol "defmacro" then do
      return ⟨name, ← clauses.mapM (clauseOfForm name)⟩
    else .error (.notAMacro form.text)
  | _ => .error (.notAMacro form.text)

/-- Whether a form has the shape of a definition of `name`, whatever its clauses are. -/
def isDefinitionOf (name : String) : Form → Bool
  | .list (head :: macroName :: _) => head.isSymbol "defmacro" && macroName.isSymbol name
  | _ => false

/-- The first definition of a macro among forms. -/
def find? (name : String) (forms : List Form) : Option Form :=
  forms.find? (isDefinitionOf name)

/-! ## Filling -/

/-- The argument that a template variable is bound to. Of two parameters with one name the last
counts. -/
def lookup (bindings : List (String × Form)) (name : Form) : Except ExpandError Form :=
  match name.symbol?.bind fun symbol => bindings.reverse.lookup symbol with
  | some value => .ok value
  | none => .error (.unbound name)

mutual

/-- Fills a template that stands inside `depth` backquotes. -/
def fill (bindings : List (String × Form)) (depth : Nat) : Form → Except ExpandError Form
  | .list [.symbol "comma", inner] =>
    if depth > 1 then Form.comma <$> fill bindings (depth - 1) inner else lookup bindings inner
  | .list [.symbol "backquote", inner] => Form.backquote <$> fill bindings (depth + 1) inner
  | .list items => .list <$> fillAll bindings depth items
  | .tuple items => .tuple <$> fillAll bindings depth items
  | .dotted items tail => do
    let items ← fillAll bindings depth items
    return .dotted items (← fill bindings depth tail)
  | atom => .ok atom

def fillAll (bindings : List (String × Form)) (depth : Nat) :
    List Form → Except ExpandError (List Form)
  | [] => .ok []
  | item :: items => do
    match item.wrapped? "comma-at", depth with
    | some name, 1 =>
      match ← lookup bindings name with
      | .list spliced => return spliced ++ (← fillAll bindings depth items)
      | value => .error (.badSplice value)
    | _, _ =>
      let filled ← fill bindings depth item
      return filled :: (← fillAll bindings depth items)

end

/-! ## Application -/

def expandClauses (name : String) (args : List Form) :
    List TemplateClause → Except ExpandError Form
  | [] => .error (.noMatchingClause name args.length)
  | clause :: clauses =>
    match clause.pattern.bindings? args with
    | some bindings => fill bindings 1 clause.template
    | none => expandClauses name args clauses

/-- Applies a macro to arguments. -/
def expand (template : Template) (args : List Form) : Except ExpandError Form :=
  expandClauses template.name args template.clauses

end Template

end HeaderForms
