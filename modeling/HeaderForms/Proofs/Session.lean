-- SUMMARY: What headers add to a session.
import HeaderForms.Header.ToForm

/-!
# What headers add to a session

A header adds its errors and its warnings to a session, and nothing else of the session changes.
Neither they nor the form of the header depend on what the session holds.
-/

namespace HeaderForms

namespace Session

/-- The session with more errors and warnings, all of them on its current line. -/
def extend (session : Session) (errors : List IncludeError) (warnings : List Warning) : Session :=
  { session with
    errors := session.errors ++ errors.map (⟨session.line, ·⟩)
    warnings := session.warnings ++ warnings.map (⟨session.line, ·⟩) }

variable {session : Session}

@[simp] theorem extend_nil : session.extend [] [] = session := by
  simp [extend]

@[simp] theorem extend_extend (errors errors' : List IncludeError)
    (warnings warnings' : List Warning) :
    (session.extend errors warnings).extend errors' warnings' =
      session.extend (errors ++ errors') (warnings ++ warnings') := by
  simp [extend]

theorem addError_eq (error : IncludeError) : session.addError error = session.extend [error] [] := by
  simp [extend, addError]

theorem addWarning_eq (warning : Warning) :
    session.addWarning warning = session.extend [] [warning] := by
  simp [extend, addWarning]

theorem foldl_addWarning (warnings : List Warning) :
    warnings.foldl addWarning session = session.extend [] warnings := by
  induction warnings generalizing session with
  | nil => simp
  | cons warning warnings ih => rw [List.foldl_cons, ih, addWarning_eq, extend_extend]; rfl

end Session

/-! ## Declarations -/

namespace Declaration.Outcome

def dropped? : Outcome → Option Warning
  | .dropped warning => some warning
  | _ => none

def failed? : Outcome → Option IncludeError
  | .failed error => some error
  | _ => none

theorem record_eq (session : Session) (outcome : Outcome) :
    record session outcome = session.extend outcome.failed?.toList outcome.dropped?.toList := by
  cases outcome with
  | dropped warning => exact Session.addWarning_eq warning
  | failed error => exact Session.addError_eq error
  | «attribute» | topLevel | nothing => exact Session.extend_nil.symm

theorem foldl_record (session : Session) (outcomes : List Outcome) :
    outcomes.foldl record session =
      session.extend (outcomes.filterMap failed?) (outcomes.filterMap dropped?) := by
  induction outcomes generalizing session with
  | nil => simp
  | cons outcome outcomes ih =>
    rw [List.foldl_cons, ih, record_eq, Session.extend_extend, List.filterMap_cons,
      List.filterMap_cons]
    cases outcome.failed? <;> cases outcome.dropped? <;> rfl

end Declaration.Outcome

/-! ## Headers -/

/-- What became of the clauses of each macro of a table, in the order of names. -/
def MacroTable.definitions (table : MacroTable) : List (Option Form × List Warning) :=
  table.macros.map fun (name, entries) => MacroForm.ofEntries name entries

namespace Header

def outcomes (header : Header) : List Declaration.Outcome :=
  DeclarationForms.outcomes header.declarations

/-- The attributes, the forms of the other declarations and the macro definitions. -/
def items (header : Header) : List Form :=
  extension (header.outcomes.filterMap (·.attribute?)) ++
    header.outcomes.filterMap (·.topLevel?) ++ header.macros.definitions.filterMap (·.1)

def errors (header : Header) : List IncludeError :=
  header.outcomes.filterMap (·.failed?)

/-- The warnings about declarations, then those about macros. -/
def warnings (header : Header) : List Warning :=
  header.outcomes.filterMap (·.dropped?) ++ header.macros.definitions.flatMap (·.2)

theorem toForm_eq (header : Header) (session : Session) :
    header.toForm session =
      (Form.call "progn" header.items, session.extend header.errors header.warnings) := by
  simp only [toForm, formItems, DeclarationForms.ofDeclarations, MacroTable.toForms,
    Declaration.Outcome.foldl_record, Session.foldl_addWarning, Session.extend_extend,
    List.append_nil]
  rfl

end Header

end HeaderForms
