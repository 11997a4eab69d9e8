-- SUMMARY: Including files: headers are converted to forms, native files are read as forms.
import HeaderForms.Config
import HeaderForms.Form.Reader
import HeaderForms.Header.ToForm
import HeaderForms.Include.Resolver

/-!
# Including files

The body of an include directive is one string, the name of the file. A name that ends like a header
is converted; any other file is read as forms. Either way the outcome is one `progn` form or a
failure, and a session that holds what was reported.

Where files are found and how they are read is up to the `Includer`, so that what is said about
including holds of every one.
-/

namespace HeaderForms

inductive IncludeOutcome where
  | included (form : Form) (session : Session)
  | failed (session : Session)

namespace IncludeOutcome

def session : IncludeOutcome → Session
  | .included _ session => session
  | .failed session => session

def form? : IncludeOutcome → Option Form
  | .included form _ => some form
  | .failed _ => none

def isFailed : IncludeOutcome → Bool
  | .included .. => false
  | .failed _ => true

/-- The outcome of a conversion that started in `session`: new errors make it a failure. -/
def ofConversion (session : Session) (form : Form) (after : Session) : IncludeOutcome :=
  if session.errors.length < after.errors.length then .failed after else .included form after

end IncludeOutcome

/-! ## Includers -/

/-- How files are found and read. -/
structure Includer (m : Type → Type) where
  resolve (searchPath : List String) (name : String) : m (Option String)
  libDir (app : String) : m (Option String)
  readHeader (path : String) : m (Except IncludeError Header)
  readText (path : String) : m (Except FileFailure String)
  isHeader (name : String) : Bool

/-- The name in the body of an include directive. -/
def includeName (body : List Form) : Except IncludeError String :=
  match body with
  | [.string name] => .ok name
  | _ => .error (.badName body)

/-- The application and the path in it, split at the first slash. -/
def splitLibrary (name : String) : Option (String × String) :=
  let cs := name.toList
  match cs.dropWhile (· ≠ '/') with
  | _ :: rest => some (String.ofList (cs.takeWhile (· ≠ '/')), String.ofList rest)
  | [] => none

/-- The forms of a native file as one form. -/
def nativeForm (text : String) : Except String Form :=
  match Form.readAll text with
  | .ok forms => .ok (Form.call "progn" forms)
  | .error error => .error error.message

namespace Includer

variable {m : Type → Type} [Monad m]

def includeHeader (includer : Includer m) (path : String) (session : Session) :
    m IncludeOutcome := do
  match ← includer.readHeader path with
  | .error error => return .failed (session.addError error)
  | .ok header =>
    let (form, after) := header.toForm session
    return .ofConversion session form after

def includeNative (includer : Includer m) (path : String) (session : Session) :
    m IncludeOutcome := do
  let form := (← includer.readText path).mapError FileFailure.message >>= nativeForm
  match form with
  | .ok form => return .included form session
  | .error reason => return .failed (session.addError (.unread path reason))

/-- Includes a file that was found. Its kind is told by the name it was asked for under. -/
def includeFound (includer : Includer m) (path name : String) (session : Session) :
    m IncludeOutcome :=
  if includer.isHeader name then includer.includeHeader path session
  else includer.includeNative path session

/-- Includes the file of a name on the search path. -/
def file (includer : Includer m) (body : List Form) (session : Session) : m IncludeOutcome := do
  match includeName body with
  | .error error => return .failed (session.addError error)
  | .ok name =>
    match ← includer.resolve session.includePath name with
    | some path => includer.includeFound path name session
    | none => return .failed (session.addError (.missing .file name))

/-- The file that a library name stands for. -/
def resolveLibrary (includer : Includer m) (name : String) : m (Option String) := do
  match splitLibrary name with
  | none => return none
  | some (app, rest) =>
    if app.isEmpty then return none
    match ← includer.libDir app with
    | some dir => includer.resolve [dir] rest
    | none => return none

/-- Includes a library file, `app/path`, which is looked for on the search path first and then in
the directory of the library. -/
def lib (includer : Includer m) (body : List Form) (session : Session) : m IncludeOutcome := do
  match includeName body with
  | .error error => return .failed (session.addError error)
  | .ok name =>
    match ← includer.resolve session.includePath name with
    | some path => includer.includeFound path name session
    | none =>
      match ← includer.resolveLibrary name with
      | some path => includer.includeFound path name session
      | none => return .failed (session.addError (.missing .lib name))

/-! ## Files -/

def readHeaderFile (files : FileSystem m) (legacy : Bool) (path : String) :
    m (Except IncludeError Header) := do
  match ← files.read path with
  | .error failure => return .error (.unread path failure.message)
  | .ok source => return (Header.ofText legacy path source).mapError .source

/-- The includer that finds and reads files as a configuration says. -/
def ofFiles (files : FileSystem m) (config : Config) : Includer m where
  resolve := Resolver.resolve files
  libDir app := Resolver.libDir files app config.libRoots
  readHeader := readHeaderFile files config.legacyRecordTypes
  readText := files.read
  isHeader := config.isHeader

end Includer

end HeaderForms
