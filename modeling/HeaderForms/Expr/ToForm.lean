-- SUMMARY: The forms of expressions, patterns and clauses.
import HeaderForms.Numeral
import HeaderForms.Form.Basic
import HeaderForms.Expr.Basic
import HeaderForms.ConvertError

/-!
# Forms of expressions

Every expression has a form, save one that holds a map update with both kinds of field. Atoms are
quoted, variables are symbols, and each construct is a list headed by a symbol of its own.

A list expression is converted along its spine: a proper list is headed by `list`, an improper one
by `cons` when it has one item and by `list*` when it has more.
-/

namespace HeaderForms

abbrev Converted (α : Type) := Except ConvertError α

/-! ## Spines -/

/-- The items of a chain of list cells and what the chain ends in, which is `none` for `nil`. An
expression that is no list is its own end. -/
structure Spine where
  items : List Form
  tail : Option Form

namespace Spine

def ending (form : Form) : Spine :=
  ⟨[], some form⟩

def cons (head : Form) (spine : Spine) : Spine :=
  ⟨head :: spine.items, spine.tail⟩

def form (spine : Spine) : Form :=
  match spine.items, spine.tail with
  | [], none => Form.nil
  | [], some form => form
  | items, none => Form.call "list" items
  | [head], some tail => Form.call "cons" [head, tail]
  | items, some tail => Form.call "list*" (items ++ [tail])

end Spine

/-! ## Clauses -/

/-- The test of one conjunction. -/
def conjunction : List Form → Form
  | [test] => test
  | tests => Form.call "andalso" tests

/-- One test for a guard sequence. A clause without guards always holds. -/
def guardTest (alternatives : List (List Form)) : Form :=
  match alternatives.map conjunction with
  | [] => Form.quote (.symbol "true")
  | [test] => test
  | tests => Form.call "orelse" tests

/-- The `when` form of a guard sequence, which is left out when there is none. -/
def whenForms : List (List Form) → List Form
  | [] => []
  | [tests] => [Form.call "when" tests]
  | alternatives => [Form.call "when" [guardTest alternatives]]

/-! ## Expressions -/

/-- The head of a map update, which depends on the kind of its fields. -/
def mapUpdateHead (fields : List MapField) : Converted String :=
  if fields.all MapField.exact then .ok "map-update"
  else if fields.all (!·.exact) then .ok "map-set"
  else .error .mixedMapUpdate

namespace Expr

def arityForm (arity : Nat) : Form :=
  .integer arity

def specForm : String × Option Int → Form
  | (name, some unit) => Form.call name [.integer unit]
  | (name, none) => .symbol name

mutual

def spine : Expr → Converted Spine
  | .nil => .ok ⟨[], none⟩
  | .cons head tail => do
    let head ← spine head
    return (← spine tail).cons head.form
  | .atom name => .ok (.ending (Form.quote (.symbol name)))
  | .var name => .ok (.ending (.symbol name))
  | .integer value => .ok (.ending (.integer value))
  | .float value => .ok (.ending (.float value))
  | .char value => .ok (.ending (.integer value.toNat))
  | .string text => .ok (.ending (.string text))
  | .tuple items => return .ending (Form.call "tuple" (← forms items))
  | .binary elements => return .ending (Form.call "binary" (← elementForms elements))
  | .map fields => return .ending (Form.call "map" (← mapForms fields))
  | .mapUpdate base fields => do
    let head ← mapUpdateHead fields
    let base ← spine base
    return .ending (Form.call head (base.form :: (← mapForms fields)))
  | .recordNew name fields =>
    return .ending (Form.call "make-record" (.symbol name :: (← fieldForms fields)))
  | .recordUpdate record name fields => do
    let record ← spine record
    return .ending
      (Form.call "record-update" (record.form :: .symbol name :: (← fieldForms fields)))
  | .recordField record name field =>
    return .ending
      (Form.call "record-field" [(← spine record).form, .symbol name, .symbol field])
  | .recordIndex name field =>
    .ok (.ending (Form.call "record-index" [.symbol name, .symbol field]))
  | .binaryOp op left right => do
    let left ← spine left
    return .ending (Form.call op.text [left.form, (← spine right).form])
  | .unaryOp op operand => return .ending (Form.call op.text [(← spine operand).form])
  | .match_ pattern value => do
    let pattern ← spine pattern
    return .ending (Form.call "=" [pattern.form, (← spine value).form])
  | .call (.atom name) args => return .ending (Form.call name (← forms args))
  | .call function args => do
    let function ← spine function
    return .ending (Form.call "funcall" (function.form :: (← forms args)))
  | .remoteCall (.atom module) (.atom function) args =>
    return .ending (Form.call (module ++ ":" ++ function) (← forms args))
  | .remoteCall module function args => do
    let module ← spine module
    let function ← spine function
    return .ending (Form.call "call" (module.form :: function.form :: (← forms args)))
  | .block body => return .ending (Form.call "progn" (← forms body))
  | .case_ subject clauses => do
    let subject ← spine subject
    return .ending (Form.call "case" (subject.form :: (← caseForms clauses)))
  | .if_ clauses => return .ending (Form.call "cond" (← ifForms clauses))
  | .fun_ clauses => return .ending (Form.call "match-lambda" (← clauseForms clauses))
  | .funRef none name arity =>
    .ok (.ending (Form.call "function" [.symbol name, arityForm arity]))
  | .funRef (some module) name arity =>
    .ok (.ending (Form.call "function" [.symbol module, .symbol name, arityForm arity]))
  | .catch_ body => return .ending (Form.call "catch" [(← spine body).form])
  | .comprehension body qualifiers => do
    let qualifiers ← qualifierForms qualifiers
    return .ending (Form.call "lc" [.list qualifiers, (← spine body).form])

def forms : List Expr → Converted (List Form)
  | [] => .ok []
  | expr :: exprs => do
    let expr ← spine expr
    return expr.form :: (← forms exprs)

def elementForms : List BinElement → Converted (List Form)
  | [] => .ok []
  | .mk value none [] :: elements => do
    let value ← spine value
    return value.form :: (← elementForms elements)
  | .mk value none specs :: elements => do
    let value ← spine value
    return .list (value.form :: specs.map specForm) :: (← elementForms elements)
  | .mk value (some size) specs :: elements => do
    let value ← spine value
    let size ← spine size
    return .list (value.form :: Form.call "size" [size.form] :: specs.map specForm)
      :: (← elementForms elements)

def mapForms : List MapField → Converted (List Form)
  | [] => .ok []
  | .mk key value _ :: fields => do
    let key ← spine key
    let value ← spine value
    return key.form :: value.form :: (← mapForms fields)

def fieldForms : List FieldValue → Converted (List Form)
  | [] => .ok []
  | .mk name value :: fields => do
    let value ← spine value
    return .symbol name :: value.form :: (← fieldForms fields)

def qualifierForms : List Qualifier → Converted (List Form)
  | [] => .ok []
  | .generator pattern source :: qualifiers => do
    let pattern ← spine pattern
    let source ← spine source
    return Form.call "<-" [pattern.form, source.form] :: (← qualifierForms qualifiers)
  | .bitGenerator pattern source :: qualifiers => do
    let pattern ← spine pattern
    let source ← spine source
    return Form.call "<=" [pattern.form, source.form] :: (← qualifierForms qualifiers)
  | .filter test :: qualifiers => do
    let test ← spine test
    return test.form :: (← qualifierForms qualifiers)

def guardForms : List (List Expr) → Converted (List (List Form))
  | [] => .ok []
  | tests :: alternatives => do
    let tests ← forms tests
    return tests :: (← guardForms alternatives)

/-- Clauses of a `case`, `(pattern [(when test...)] body...)`. -/
def caseForms : List Clause → Converted (List Form)
  | [] => .ok []
  | .mk [pattern] guards body :: clauses => do
    let pattern ← spine pattern
    let guards ← guardForms guards
    let body ← forms body
    return .list (pattern.form :: whenForms guards ++ body) :: (← caseForms clauses)
  | .mk patterns _ _ :: _ => .error (.casePatterns patterns.length)

/-- Clauses of an `if`, `(test body...)`. -/
def ifForms : List Clause → Converted (List Form)
  | [] => .ok []
  | .mk _ guards body :: clauses => do
    let guards ← guardForms guards
    let body ← forms body
    return .list (guardTest guards :: body) :: (← ifForms clauses)

/-- Clauses of a function or a `fun`, `((pattern...) [(when test...)] body...)`. -/
def clauseForms : List Clause → Converted (List Form)
  | [] => .ok []
  | .mk patterns guards body :: clauses => do
    let patterns ← forms patterns
    let guards ← guardForms guards
    let body ← forms body
    return .list (.list patterns :: whenForms guards ++ body) :: (← clauseForms clauses)

end

def toForm (expr : Expr) : Converted Form := do
  return (← expr.spine).form

end Expr

/-- The form of one clause of a function. -/
def Clause.toForm (clause : Clause) : Converted Form := do
  let patterns ← Expr.forms clause.patterns
  let guards ← Expr.guardForms clause.guards
  let body ← Expr.forms clause.body
  return .list (.list patterns :: whenForms guards ++ body)

end HeaderForms
