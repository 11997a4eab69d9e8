-- SUMMARY: Sessions over runs of includes: what an include adds, and what it depends on.
import Mathlib.Tactic.Choose
import HeaderForms.CommandLine.Run
import HeaderForms.File.Tree
import HeaderForms.Proofs.Session

/-!
# Runs of includes

What an include does to a session is told by a report, which is computed without the diagnostics of
the session. The report has the errors and the warnings that the include adds; it fails when there
are errors and has a form when there are none. So the sessions of a run only grow, whatever the
includer answers.
-/

namespace HeaderForms

/-! ## Answers of computations -/

section

variable {m : Type → Type} [Monad m] {α β : Type}

/-- Every answer of the computation has the property. -/
def Always (P : α → Prop) (computation : m α) : Prop :=
  ∃ answers : m (Subtype P), Subtype.val <$> answers = computation

variable [LawfulMonad m]

theorem always_pure {P : α → Prop} {value : α} (h : P value) : Always P (pure value : m α) :=
  ⟨pure ⟨value, h⟩, by simp⟩

theorem always_map {P : β → Prop} {f : α → β} (h : ∀ value, P (f value)) (computation : m α) :
    Always P (f <$> computation) :=
  ⟨(fun value => ⟨f value, h value⟩) <$> computation, by simp⟩

theorem Always.bind {P : α → Prop} {Q : β → Prop} {computation : m α} {next : α → m β}
    (h : Always P computation) (hnext : ∀ value, P value → Always Q (next value)) :
    Always Q (computation >>= next) := by
  obtain ⟨answers, rfl⟩ := h
  choose more hmore using hnext
  refine ⟨answers >>= fun value => more value.1 value.2, ?_⟩
  simp [hmore]

theorem Always.map {P : α → Prop} {Q : β → Prop} {f : α → β} {computation : m α}
    (h : Always P computation) (hf : ∀ value, P value → Q (f value)) :
    Always Q (f <$> computation) := by
  obtain ⟨answers, rfl⟩ := h
  rw [← comp_map]
  exact always_map (fun value => hf value.1 value.2) answers

theorem Always.mono {P Q : α → Prop} {computation : m α} (h : Always P computation)
    (hPQ : ∀ value, P value → Q value) : Always Q computation := by
  simpa using h.map (f := id) hPQ

end

/-! ## Reports -/

/-- What an include adds to a session, and the form it has if it adds no error. -/
structure Report where
  form : Form
  errors : List IncludeError
  warnings : List Warning

namespace Report

def outcome (report : Report) (session : Session) : IncludeOutcome :=
  let after := session.extend report.errors report.warnings
  if report.errors.isEmpty then .included report.form after else .failed after

def ofError (error : IncludeError) : Report :=
  ⟨Form.nil, [error], []⟩

def ofForm (form : Form) : Report :=
  ⟨form, [], []⟩

def ofHeader (header : Header) : Report :=
  ⟨Form.call "progn" header.items, header.errors, header.warnings⟩

theorem outcome_ofError (error : IncludeError) (session : Session) :
    (ofError error).outcome session = .failed (session.addError error) := by
  rw [Session.addError_eq]
  rfl

theorem outcome_ofForm (form : Form) (session : Session) :
    (ofForm form).outcome session = .included form session := by
  simp [outcome, ofForm]

theorem outcome_ofHeader (header : Header) (session : Session) :
    (ofHeader header).outcome session =
      .ofConversion session (header.toForm session).1 (header.toForm session).2 := by
  rw [Header.toForm_eq]
  cases herrors : header.errors with
  | nil => simp [outcome, ofHeader, IncludeOutcome.ofConversion, Session.extend, herrors]
  | cons => simp [outcome, ofHeader, IncludeOutcome.ofConversion, Session.extend, herrors]

end Report

/-- How the outcome of an include follows from the session before it. -/
structure IncludeOutcome.Follows (session : Session) (outcome : IncludeOutcome) : Prop where
  line : outcome.session.line = session.line
  includePath : outcome.session.includePath = session.includePath
  errors : ∃ added : List IncludeError,
    outcome.session.errors = session.errors ++ added.map (⟨session.line, ·⟩)
  warnings : ∃ added : List Warning,
    outcome.session.warnings = session.warnings ++ added.map (⟨session.line, ·⟩)
  failed_iff : outcome.isFailed = true ↔
    session.errors.length < outcome.session.errors.length
  included_iff : outcome.isFailed = false ↔ outcome.session.errors = session.errors

theorem Report.follows (session : Session) (report : Report) :
    (report.outcome session).Follows session := by
  obtain ⟨form, errors, warnings⟩ := report
  cases errors with
  | nil =>
    have herrors : (session.extend [] warnings).errors = session.errors := List.append_nil _
    refine ⟨rfl, rfl, ⟨[], rfl⟩, ⟨warnings, rfl⟩, ?_, iff_of_true rfl herrors⟩
    exact iff_of_false Bool.false_ne_true (herrors ▸ Nat.lt_irrefl _)
  | cons error errors =>
    have hlength : session.errors.length <
        (session.extend (error :: errors) warnings).errors.length := by
      simp [Session.extend]
    refine ⟨rfl, rfl, ⟨error :: errors, rfl⟩, ⟨warnings, rfl⟩, iff_of_true rfl hlength, ?_⟩
    refine iff_of_false (by simp [outcome, IncludeOutcome.isFailed]) fun h => ?_
    exact absurd (congrArg List.length h) (Nat.ne_of_gt hlength)

namespace Includer

variable {m : Type → Type} [Monad m] [LawfulMonad m] {includer : Includer m}

/-! ## Includes -/

/-- The outcome is that of a report, and the report is computed from the search path of the session
alone. -/
def Reporting (call : Session → m IncludeOutcome) : Prop :=
  ∃ report : List String → m Report, ∀ session,
    call session = (·.outcome session) <$> report session.includePath

theorem reporting_error (error : IncludeError) :
    Reporting fun session => (pure (.failed (session.addError error)) : m IncludeOutcome) :=
  ⟨fun _ => pure (.ofError error), fun session => by simp [Report.outcome_ofError]⟩

theorem reporting_form (form : Form) :
    Reporting fun session => (pure (.included form session) : m IncludeOutcome) :=
  ⟨fun _ => pure (.ofForm form), fun session => by simp [Report.outcome_ofForm]⟩

theorem reporting_header (header : Header) :
    Reporting fun session => (pure (.ofConversion session (header.toForm session).1
      (header.toForm session).2) : m IncludeOutcome) :=
  ⟨fun _ => pure (.ofHeader header), fun session => by simp [Report.outcome_ofHeader]⟩

theorem reporting_bind {α : Type} (question : List String → m α)
    {next : α → Session → m IncludeOutcome} (h : ∀ answer, Reporting (next answer)) :
    Reporting fun session => question session.includePath >>= fun answer => next answer session := by
  choose report hreport using h
  exact ⟨fun path => question path >>= fun answer => report answer path, fun session => by
    simp [hreport]⟩

theorem reporting_includeHeader (path : String) : Reporting (includer.includeHeader path) := by
  refine reporting_bind (fun _ => includer.readHeader path) fun answer => ?_
  cases answer with
  | error error => exact reporting_error error
  | ok header => exact reporting_header header

theorem reporting_includeNative (path : String) : Reporting (includer.includeNative path) := by
  refine reporting_bind (fun _ => includer.readText path) fun answer => ?_
  cases answer.mapError FileFailure.message >>= nativeForm with
  | error reason => exact reporting_error (.unread path reason)
  | ok form => exact reporting_form form

theorem reporting_includeFound (path name : String) :
    Reporting (includer.includeFound path name) := by
  unfold includeFound
  split
  case isTrue => exact reporting_includeHeader path
  case isFalse => exact reporting_includeNative path

theorem reporting_file (body : List Form) : Reporting (includer.file body) := by
  unfold file
  cases includeName body with
  | error error => exact reporting_error error
  | ok name =>
    refine reporting_bind (includer.resolve · name) fun answer => ?_
    cases answer with
    | some path => exact reporting_includeFound path name
    | none => exact reporting_error (.missing .file name)

theorem reporting_lib (body : List Form) : Reporting (includer.lib body) := by
  unfold lib
  cases includeName body with
  | error error => exact reporting_error error
  | ok name =>
    refine reporting_bind (includer.resolve · name) fun answer => ?_
    cases answer with
    | some path => exact reporting_includeFound path name
    | none =>
      refine reporting_bind (fun _ => includer.resolveLibrary name) fun answer => ?_
      cases answer with
      | some path => exact reporting_includeFound path name
      | none => exact reporting_error (.missing .lib name)

end Includer

/-! ## Runs -/

/-- The later session has every diagnostic of the earlier one, in its place. -/
structure Session.Precedes (earlier later : Session) : Prop where
  errors : earlier.errors <+: later.errors
  warnings : earlier.warnings <+: later.warnings

theorem Session.Precedes.refl (session : Session) : session.Precedes session :=
  ⟨List.prefix_rfl, List.prefix_rfl⟩

theorem Session.Precedes.trans {first second third : Session} (h : first.Precedes second)
    (h' : second.Precedes third) : first.Precedes third :=
  ⟨h.errors.trans h'.errors, h.warnings.trans h'.warnings⟩

theorem IncludeOutcome.Follows.precedes {session : Session} {outcome : IncludeOutcome}
    (h : outcome.Follows session) : session.Precedes outcome.session := by
  obtain ⟨errors, herrors⟩ := h.errors
  obtain ⟨warnings, hwarnings⟩ := h.warnings
  exact ⟨herrors ▸ List.prefix_append .., hwarnings ▸ List.prefix_append ..⟩

/-- What a caller does with a session. -/
inductive Operation where
  | atLine (line : Nat)
  | withIncludePath (includePath : List String)
  | include (kind : IncludeKind) (body : List Form)

namespace Includer

variable {m : Type → Type} [Monad m]

/-- Includes a file as a directive of this kind does. -/
def call (includer : Includer m) : IncludeKind → List Form → Session → m IncludeOutcome
  | .file => includer.file
  | .lib => includer.lib

def perform (includer : Includer m) (session : Session) : Operation → m Session
  | .atLine line => return session.atLine line
  | .withIncludePath includePath => return session.withIncludePath includePath
  | .include kind body => IncludeOutcome.session <$> includer.call kind body session

/-- The sessions of a run, the first of which it starts in. -/
def run (includer : Includer m) (session : Session) : List Operation → m (List Session)
  | [] => return [session]
  | operation :: operations => do
    let next ← includer.perform session operation
    return session :: (← includer.run next operations)

variable [LawfulMonad m] {includer : Includer m}

theorem reporting_call (kind : IncludeKind) (body : List Form) :
    Reporting (includer.call kind body) := by
  cases kind with
  | file => exact reporting_file body
  | lib => exact reporting_lib body

theorem always_follows (kind : IncludeKind) (body : List Form) (session : Session) :
    Always (·.Follows session) (includer.call kind body session) := by
  have hcall : Reporting (includer.call kind body) := reporting_call kind body
  obtain ⟨report, hreport⟩ := hcall
  rw [hreport]
  exact always_map (Report.follows session) _

theorem always_precedes (session : Session) (operation : Operation) :
    Always session.Precedes (includer.perform session operation) := by
  cases operation with
  | atLine line => exact always_pure ⟨List.prefix_rfl, List.prefix_rfl⟩
  | withIncludePath includePath => exact always_pure ⟨List.prefix_rfl, List.prefix_rfl⟩
  | «include» kind body =>
    exact (always_follows kind body session).map fun _ h => h.precedes

/-- No session of a run loses what an earlier one had. -/
theorem always_pairwise (session : Session) (operations : List Operation) :
    Always (fun sessions => (∀ later ∈ sessions, session.Precedes later) ∧
      sessions.Pairwise Session.Precedes) (includer.run session operations) := by
  induction operations generalizing session with
  | nil => exact always_pure ⟨by simp [Session.Precedes.refl], List.pairwise_singleton _ _⟩
  | cons operation operations ih =>
    refine (always_precedes session operation).bind fun next hnext => ?_
    refine (ih next).bind fun sessions ⟨hfirst, hrest⟩ => always_pure ?_
    have hlater : ∀ later ∈ sessions, session.Precedes later := fun later hmem =>
      hnext.trans (hfirst later hmem)
    exact ⟨List.forall_mem_cons.2 ⟨.refl session, hlater⟩, List.pairwise_cons.2 ⟨hlater, hrest⟩⟩

end Includer

/-! ## The command -/

namespace CommandLine

/-- The command that includes one file. -/
def Command.ofName : IncludeKind → String → Command
  | .file => .includeFile
  | .lib => .includeLib

theorem Command.run_ofName {m : Type → Type} [Monad m] [LawfulMonad m] (includer : Includer m)
    (json : Bool) (session : Session) (kind : IncludeKind) (name : String) :
    (ofName kind name).run includer json session =
      Output.ofOutcome json <$> includer.call kind [.string name] session := by
  cases kind with
  | file => exact bind_pure_comp ..
  | lib => exact bind_pure_comp ..

theorem exitCode_ofOutcome_iff {session : Session} {outcome : IncludeOutcome} (json : Bool)
    (hsession : session.errors = []) (h : outcome.Follows session) :
    (Output.ofOutcome json outcome).exitCode = 0 ↔ outcome.session.errors = [] := by
  have hcode : (Output.ofOutcome json outcome).exitCode = 0 ↔ outcome.isFailed = false := by
    cases json <;> cases outcome <;>
      simp [Output.ofOutcome, exitCodeOf, IncludeOutcome.isFailed]
  rw [hcode, h.included_iff, hsession]

end CommandLine

/-- Sessions over runs of includes: none forgets a diagnostic; each include reports on its line,
fails exactly when it adds an error, and reports the same in every session with its search path. The
command that includes a file ends with 0 exactly when it leaves no error. -/
theorem Includer.run_extends {m : Type → Type} [Monad m] [LawfulMonad m] (includer : Includer m) :
    (∀ session operations,
      Always (List.Pairwise Session.Precedes) (includer.run session operations)) ∧
    (∀ kind body session, Always (·.Follows session) (includer.call kind body session)) ∧
    (∀ kind body, ∃ report : List String → m Report, ∀ session,
      includer.call kind body session = (·.outcome session) <$> report session.includePath) ∧
    ∀ kind name json includePath,
      let outcome := includer.call kind [.string name] (Session.initial.withIncludePath includePath)
      (CommandLine.Command.ofName kind name).run includer json
          (Session.initial.withIncludePath includePath) =
        CommandLine.Output.ofOutcome json <$> outcome ∧
      Always (fun outcome => (CommandLine.Output.ofOutcome json outcome).exitCode = 0 ↔
        outcome.session.errors = []) outcome := by
  refine ⟨fun session operations => ?_, always_follows, reporting_call, ?_⟩
  · exact (always_pairwise session operations).mono fun _ h => h.2
  · intro kind name json includePath outcome
    refine ⟨CommandLine.Command.run_ofName includer json _ kind name, ?_⟩
    exact (always_follows kind [.string name] _).mono fun _ h =>
      CommandLine.exitCode_ofOutcome_iff json rfl h

/-- A tree with a header that fails and one that does not. -/
def Includer.sampleTree : FileTree :=
  .dir [("bad.hrl", .file (some "f(
-type t() :: 1 bsl 8.")), ("good.hrl", .file (some "-a(b)."))]

theorem Includer.run_extends_sample :
    let includer := Includer.ofFiles Includer.sampleTree.fileSystem .default
    let operations : List Operation :=
      [.withIncludePath ["."], .atLine 3, .include .file [.string "bad.hrl"], .atLine 5,
        .include .lib [.string "good.hrl"]]
    (includer.run .initial operations).map (fun session =>
        (session.line, session.errors.length)) =
      [(0, 0), (0, 0), (3, 0), (3, 1), (5, 1), (5, 1)] ∧
      Always (m := Id) (List.Pairwise Session.Precedes) (includer.run .initial operations) :=
  ⟨by decide +kernel, (Includer.run_extends _).1 _ _⟩

end HeaderForms
