-- SUMMARY: The structural text of expressions, which names every node.
import HeaderForms.Text.Quoted
import HeaderForms.Float64.Shortest
import HeaderForms.Expr.Basic

/-!
# Structural text

A notation for expression trees that names every node and every field. Diagnostics show it for an
expression that has no form to show instead.
-/

namespace HeaderForms

namespace Dump

def commaSeparated (texts : List String) : String :=
  ", ".intercalate texts

def node (name : String) (parts : List String) : String :=
  name ++ "(" ++ commaSeparated parts ++ ")"

def fields (name : String) (parts : List (String × String)) : String :=
  name ++ " \x7b " ++ commaSeparated (parts.map fun (key, text) => key ++ ": " ++ text) ++ " \x7d"

def sequence (texts : List String) : String :=
  "[" ++ commaSeparated texts ++ "]"

def optional : Option String → String
  | some text => node "Some" [text]
  | none => "None"

def spec : String × Option Int → String
  | (name, unit) => node "" [Text.quoted name, optional (unit.map toString)]

end Dump

namespace Expr

open Dump Text

mutual

def dump : Expr → String
  | .atom name => node "Atom" [quoted name]
  | .var name => node "Var" [quoted name]
  | .integer value => node "Integer" [toString value]
  | .float value => node "Float" [value.text]
  | .char value => node "Char" [quotedChar value]
  | .string text => node "String" [quoted text]
  | .nil => "Nil"
  | .cons head tail => node "Cons" [dump head, dump tail]
  | .tuple items => node "Tuple" [sequence (dumps items)]
  | .binary elements => node "Binary" [sequence (elementDumps elements)]
  | .map mapFields =>
    fields "Map" [("base", optional none), ("fields", sequence (mapDumps mapFields))]
  | .mapUpdate base mapFields =>
    fields "Map" [("base", optional (some (dump base))),
      ("fields", sequence (mapDumps mapFields))]
  | .recordNew name values =>
    fields "RecordNew" [("name", quoted name), ("fields", sequence (fieldDumps values))]
  | .recordUpdate record name values =>
    fields "RecordUpdate" [("expr", dump record), ("name", quoted name),
      ("fields", sequence (fieldDumps values))]
  | .recordField record name field =>
    fields "RecordField" [("expr", dump record), ("name", quoted name), ("field", quoted field)]
  | .recordIndex name field =>
    fields "RecordIndex" [("name", quoted name), ("field", quoted field)]
  | .binaryOp op left right =>
    fields "BinaryOp" [("op", quoted op.text), ("left", dump left), ("right", dump right)]
  | .unaryOp op operand =>
    fields "UnaryOp" [("op", quoted op.text), ("operand", dump operand)]
  | .match_ pattern value => node "Match" [dump pattern, dump value]
  | .call function args =>
    fields "Call" [("fun", dump function), ("args", sequence (dumps args))]
  | .remoteCall module function args =>
    fields "RemoteCall" [("module", dump module), ("fun", dump function),
      ("args", sequence (dumps args))]
  | .block body => node "Block" [sequence (dumps body)]
  | .case_ subject clauses =>
    fields "Case" [("expr", dump subject), ("clauses", sequence (clauseDumps clauses))]
  | .if_ clauses => node "If" [sequence (clauseDumps clauses)]
  | .fun_ clauses => node "Fun" [sequence (clauseDumps clauses)]
  | .funRef module name arity =>
    fields "FunRef" [("module", optional (module.map quoted)), ("name", quoted name),
      ("arity", toString arity)]
  | .catch_ body => node "Catch" [dump body]
  | .comprehension body qualifiers =>
    fields "ListComp" [("expr", dump body), ("qualifiers", sequence (qualifierDumps qualifiers))]

def dumps : List Expr → List String
  | [] => []
  | expr :: exprs => dump expr :: dumps exprs

def elementDumps : List BinElement → List String
  | [] => []
  | .mk value none specs :: elements =>
    fields "BinElement" [("value", dump value), ("size", optional none),
      ("specs", sequence (specs.map spec))] :: elementDumps elements
  | .mk value (some size) specs :: elements =>
    fields "BinElement" [("value", dump value), ("size", optional (some (dump size))),
      ("specs", sequence (specs.map spec))] :: elementDumps elements

def mapDumps : List MapField → List String
  | [] => []
  | .mk key value exact :: rest =>
    fields "MapField" [("key", dump key), ("value", dump value), ("exact", toString exact)]
      :: mapDumps rest

def fieldDumps : List FieldValue → List String
  | [] => []
  | .mk name value :: rest => node "" [quoted name, dump value] :: fieldDumps rest

def qualifierDumps : List Qualifier → List String
  | [] => []
  | .generator pattern source :: rest =>
    node "Generator" [dump pattern, dump source] :: qualifierDumps rest
  | .bitGenerator pattern source :: rest =>
    node "BitGenerator" [dump pattern, dump source] :: qualifierDumps rest
  | .filter test :: rest => node "Filter" [dump test] :: qualifierDumps rest

def guardDumps : List (List Expr) → List String
  | [] => []
  | tests :: rest => sequence (dumps tests) :: guardDumps rest

def clauseDumps : List Clause → List String
  | [] => []
  | .mk patterns guards body :: rest =>
    fields "Clause" [("patterns", sequence (dumps patterns)),
      ("guards", sequence (guardDumps guards)), ("body", sequence (dumps body))]
      :: clauseDumps rest

end

end Expr

end HeaderForms
