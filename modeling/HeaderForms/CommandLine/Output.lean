-- SUMMARY: What the command writes: forms, diagnostics and outcomes as lines of text.
import HeaderForms.CommandLine.Json
import HeaderForms.Include.Basic

/-!
# Output

A run of the command ends with an exit code and two texts. The program form stands on the
standard output, one form a line; warnings and errors stand on the standard error. As JSON both
parts of an outcome are one object on the standard output.
-/

namespace HeaderForms

/-- A program form with each of its forms on a line of its own. -/
def Form.programText (form : Form) : String :=
  match form with
  | .list (head :: item :: items) =>
    if head.isSymbol "progn" then
      "(progn\n" ++ "\n".intercalate ((item :: items).map fun item => "  " ++ item.text) ++ ")"
    else form.text
  | form => form.text

namespace CommandLine

structure Output where
  exitCode : Nat
  stdout : List String
  stderr : List String
deriving DecidableEq, Repr

def textOfLines (lines : List String) : String :=
  String.join (lines.map (· ++ "\n"))

def warningLine (warning : Located Warning) : String :=
  "warning: line " ++ toString warning.line ++ ": " ++ warning.item.message

/-- The lines of an error: its code, then what it says. -/
def errorLines (code message : String) : List String :=
  ["Error: " ++ code, "  " ++ message]

/-- The diagnostics of a session, warnings first. -/
def diagnosticLines (session : Session) : List String :=
  session.warnings.map warningLine ++
    session.errors.flatMap fun error => errorLines error.item.code error.item.message

def exitCodeOf (outcome : IncludeOutcome) : Nat :=
  if outcome.isFailed then 1 else 0

end CommandLine

def IncludeOutcome.toJson (outcome : IncludeOutcome) : Json :=
  .object [
    ("errors", .array (outcome.session.errors.map (·.toJson IncludeError.toJson))),
    ("form", (outcome.form?.map Form.toJson).getD .null),
    ("text", (outcome.form?.map fun form => .string form.text).getD .null),
    ("warnings", .array (outcome.session.warnings.map (·.toJson Warning.toJson)))]

namespace CommandLine.Output

def ofOutcome (json : Bool) (outcome : IncludeOutcome) : Output :=
  if json then ⟨exitCodeOf outcome, [outcome.toJson.text], []⟩
  else
    ⟨exitCodeOf outcome, (outcome.form?.map Form.programText).toList,
      diagnosticLines outcome.session⟩

def ofForm (json : Bool) (form : Form) : Output :=
  ⟨0, [if json then form.toJson.text else form.text], []⟩

def ofError (code message : String) : Output :=
  ⟨1, [], errorLines code message⟩

/-- The output with the diagnostics of a session before its own. -/
def after (session : Session) (output : Output) : Output :=
  { output with stderr := diagnosticLines session ++ output.stderr }

end CommandLine.Output

end HeaderForms
