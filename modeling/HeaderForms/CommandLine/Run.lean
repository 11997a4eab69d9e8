-- SUMMARY: Running the command on its arguments and the files around it.
import HeaderForms.CommandLine.Arguments
import HeaderForms.CommandLine.Output
import HeaderForms.Config.File
import HeaderForms.Template

/-!
# Running the command

The configuration is read from its file, if one is named, and then extended by the options and the
library variable. The command includes one file and shows the outcome, or applies one macro of the
outcome to arguments.

A run asks its questions about files in a monad and answers with what is to be written, so that the
same run is a program and a function.
-/

namespace HeaderForms.CommandLine

/-! ## Configuration -/

/-- The directories in a list separated by colons. -/
def directoryList (text : String) : List String :=
  (text.toList.splitOn ':').map String.ofList

/-- A configuration extended by options: their directories are searched first, their library roots
last, before those of the library variable. -/
def Options.extend (options : Options) (libraries : Option String) (config : Config) : Config where
  includePath := options.includes ++ config.includePath
  libRoots :=
    config.libRoots ++ options.libRoots ++ (libraries.map directoryList).getD []
  headerSuffix := config.headerSuffix
  legacyRecordTypes := config.legacyRecordTypes || options.legacyRecordTypes

/-! ## Expansion -/

/-- Why a macro could not be applied. -/
inductive ApplyError where
  | expand (error : ExpandError)
  | read (error : ReadError)

def ApplyError.code : ApplyError → String
  | .expand error => error.code
  | .read error => error.code

def ApplyError.message : ApplyError → String
  | .expand error => error.message
  | .read error => error.message

/-- Applies a macro that a program form defines to arguments given as text. -/
def applyMacro (program : Form) (name : String) (args : List String) :
    Except ApplyError Form := do
  match Template.find? name (program.list?.getD []) with
  | none => .error (.expand (.notAMacro name))
  | some definition =>
    let template ← (Template.ofForm definition).mapError .expand
    let args ← (args.mapM Form.readOne).mapError .read
    (template.expand args).mapError .expand

def Output.ofApplication (json : Bool) (application : Except ApplyError Form) : Output :=
  match application with
  | .ok form => .ofForm json form
  | .error error => .ofError error.code error.message

/-- The output of applying a macro of what an include gave. -/
def Output.ofExpansion (json : Bool) (name : String) (args : List String)
    (outcome : IncludeOutcome) : Output :=
  match outcome with
  | .failed session => ⟨1, [], diagnosticLines session⟩
  | .included form session =>
    (Output.ofApplication json (applyMacro form name args)).after session

/-! ## Runs -/

def versionText : String :=
  "hdrinc 0.1.0"

def usageText : String :=
  "Usage: hdrinc [OPTIONS] <COMMAND>"

def helpLines : List String :=
  ["Translate host-notation headers into MacroLang forms.", "", usageText, "",
    "Commands:",
    "  translate <FILE>                       Include a file found on the search path",
    "  lib <NAME>                             Include a library file",
    "  expand <FILE> <MACRO_NAME> [ARGS]...   Expand a macro of a header", "",
    "Options:",
    "  -I, --include <DIR>        Add a directory to the include search path",
    "      --lib-root <DIR>       Add a library root",
    "      --config <FILE>        YAML configuration file",
    "      --legacy-record-types  Read typed records in the older combined encoding",
    "      --json                 Print the result and diagnostics as JSON",
    "  -h, --help                 Print help",
    "  -V, --version              Print version"]

def Output.ofRefusal : Refusal → Output
  | .help => ⟨0, helpLines, []⟩
  | .version => ⟨0, [versionText], []⟩
  | .usage message => ⟨2, [], [message, "", usageText]⟩

variable {m : Type → Type} [Monad m]

def Command.run (includer : Includer m) (json : Bool) (session : Session) :
    Command → m Output
  | .includeFile file => return .ofOutcome json (← includer.file [.string file] session)
  | .includeLib name => return .ofOutcome json (← includer.lib [.string name] session)
  | .expand file macroName args =>
    return .ofExpansion json macroName args (← includer.file [.string file] session)

/-- The configuration of the file that the options name, or the default one. -/
def Options.loadConfig (options : Options) (files : FileSystem m) :
    m (Except ConfigError Config) :=
  match options.config with
  | some path => Config.load files path
  | none => return .ok .default

def Invocation.run (invocation : Invocation) (files : FileSystem m)
    (libraries : Option String) : m Output := do
  let options := invocation.options
  match ← options.loadConfig files with
  | .error error => return .ofError error.code error.message
  | .ok config =>
    let config := options.extend libraries config
    let session := Session.initial.withIncludePath config.includePath
    invocation.command.run (Includer.ofFiles files config) options.json session

/-- Runs the command. `libraries` is the list of further library roots, if there is one. -/
def run (files : FileSystem m) (libraries : Option String) (args : List String) : m Output :=
  match parse args with
  | .error refusal => return .ofRefusal refusal
  | .ok invocation => invocation.run files libraries

end HeaderForms.CommandLine
