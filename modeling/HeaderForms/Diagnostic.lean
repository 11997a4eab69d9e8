-- SUMMARY: What an include reports: errors that fail it, and warnings about dropped items.
import HeaderForms.ConvertError
import HeaderForms.Declaration.Basic
import HeaderForms.Macro.Table

/-!
# Diagnostics

An error fails the include that it arises in; a warning names one item of a header that has no
form. Both keep their cause, and their wording is written once, in `message`.
-/

namespace HeaderForms

/-! ## Errors -/

/-- The directive that a missing include came from. -/
inductive IncludeKind where
  | file
  | lib
deriving DecidableEq, Repr

def IncludeKind.name : IncludeKind → String
  | .file => "file"
  | .lib => "lib"

inductive IncludeError where
  /-- The body of the directive, which is not one string. -/
  | badName (body : List Form)
  | missing (kind : IncludeKind) (name : String)
  | unread (path reason : String)
  | source (error : SourceError)
deriving Repr

namespace IncludeError

def message : IncludeError → String
  | .badName body => "bad include name: " ++ (Form.list body).text
  | .missing kind name => "no such include " ++ kind.name ++ ": " ++ name
  | .unread path reason => "failed to read " ++ path ++ ": " ++ reason
  | .source error => "host parse error at " ++ error.message

/-- The name under which a tool can look the kind of error up. -/
def code : IncludeError → String
  | .badName _ => "hdrinc::include::bad_name"
  | .missing .. => "hdrinc::include::no_include"
  | .unread .. => "hdrinc::include::read"
  | .source _ => "hdrinc::include::host_parse"

end IncludeError

/-! ## Warnings -/

/-- Why an item has no form. -/
inductive Obstacle where
  | conversion (error : ConvertError)
  | source (error : SourceError)
deriving Repr

def Obstacle.message : Obstacle → String
  | .conversion error => error.message
  | .source error => error.message

inductive Warning where
  | declaration (head : Head) (reason : Obstacle)
  | macroClause (name : String) (arity : MacroArity) (reason : Obstacle)
deriving Repr

def Head.label (head : Head) : String :=
  let applied := s!"{head.name}/{head.arity}"
  match head.kind with
  | .function => "function " ++ applied
  | .record => "record " ++ head.name
  | .type => "type " ++ head.name
  | .opaqueType => "opaque type " ++ head.name
  | .spec => "spec " ++ applied
  | .attribute => "attribute " ++ head.name

def macroLabel (name : String) : MacroArity → String
  | .fixed count => s!"macro {name}/{count}"
  | .noArgs => "macro " ++ name

namespace Warning

def label : Warning → String
  | .declaration head _ => head.label
  | .macroClause name arity _ => macroLabel name arity

def reason : Warning → Obstacle
  | .declaration _ reason => reason
  | .macroClause _ _ reason => reason

def message (warning : Warning) : String :=
  "unable to translate " ++ warning.label ++ ": " ++ warning.reason.message

end Warning

end HeaderForms
