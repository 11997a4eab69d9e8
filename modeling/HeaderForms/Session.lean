-- SUMMARY: Sessions: the line being compiled, the search path, and the diagnostics so far.
import HeaderForms.Diagnostic

/-!
# Sessions

A session is threaded through the includes of one compilation. It grows and never forgets: each
diagnostic is put behind the earlier ones, with the line that was current when it arose.
-/

namespace HeaderForms

structure Located (α : Type) where
  line : Nat
  item : α
deriving Repr

structure Session where
  /-- The line of the include directive that is being processed. -/
  line : Nat
  errors : List (Located IncludeError)
  warnings : List (Located Warning)
  includePath : List String
deriving Repr

namespace Session

def initial : Session :=
  ⟨0, [], [], []⟩

def atLine (session : Session) (line : Nat) : Session :=
  { session with line }

def withIncludePath (session : Session) (includePath : List String) : Session :=
  { session with includePath }

def addError (session : Session) (error : IncludeError) : Session :=
  { session with errors := session.errors ++ [⟨session.line, error⟩] }

def addWarning (session : Session) (warning : Warning) : Session :=
  { session with warnings := session.warnings ++ [⟨session.line, warning⟩] }

end Session

end HeaderForms
