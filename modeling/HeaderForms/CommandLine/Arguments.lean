-- SUMMARY: The arguments of the command: options, commands, and what is refused.
import HeaderForms.Numeral

/-!
# Arguments

The command line names one of three commands and its arguments, with options before or behind the
name of the command. An option may be given once on each side, save those that collect directories;
where both sides give it, the one behind the command counts. Behind `--` everything is an argument.
-/

namespace HeaderForms.CommandLine

/-! ## Commands -/

inductive Command where
  | includeFile (file : String)
  | includeLib (name : String)
  | expand (file macroName : String) (args : List String)
deriving DecidableEq, Repr

/-- The options given on one side of the name of the command. -/
structure Options where
  includes : List String
  libRoots : List String
  config : Option String
  legacyRecordTypes : Bool
  json : Bool
deriving DecidableEq, Repr

namespace Options

def empty : Options :=
  ⟨[], [], none, false, false⟩

/-- The options of both sides. -/
def merge (outer inner : Options) : Options where
  includes := if inner.includes.isEmpty then outer.includes else inner.includes
  libRoots := if inner.libRoots.isEmpty then outer.libRoots else inner.libRoots
  config := inner.config.or outer.config
  legacyRecordTypes := outer.legacyRecordTypes || inner.legacyRecordTypes
  json := outer.json || inner.json

end Options

structure Invocation where
  options : Options
  command : Command
deriving DecidableEq, Repr

/-- What is done in place of a command. -/
inductive Refusal where
  | help
  | version
  | usage (message : String)
deriving DecidableEq, Repr

/-! ## Options -/

/-- An option that takes a value. -/
inductive ValueOption where
  | includeDir
  | libRoot
  | config
deriving DecidableEq, Repr

inductive Flag where
  | legacyRecordTypes
  | json
deriving DecidableEq, Repr

/-- What one argument is. -/
inductive Argument where
  | plain (text : String)
  | value (option : ValueOption) (attached : Option String)
  | flag (flag : Flag)
  | help
  | version
  | endOfOptions
  | unknown
deriving DecidableEq, Repr

def valueOption? (name : String) : Option ValueOption :=
  match name with
  | "include" => some .includeDir
  | "lib-root" => some .libRoot
  | "config" => some .config
  | _ => none

def flag? (name : String) : Option Flag :=
  match name with
  | "legacy-record-types" => some .legacyRecordTypes
  | "json" => some .json
  | _ => none

/-- A long option behind its two dashes, with the value behind an equals sign. -/
def longOption (text : List Char) : Argument :=
  let name := String.ofList (text.takeWhile (· ≠ '='))
  let attached :=
    match text.dropWhile (· ≠ '=') with
    | _ :: value => some (String.ofList value)
    | [] => none
  match valueOption? name, flag? name, attached with
  | some option, _, attached => .value option attached
  | none, some flag, none => .flag flag
  | none, none, none =>
    if name = "help" then .help else if name = "version" then .version else .unknown
  | _, _, _ => .unknown

/-- A short option behind its dash. -/
def shortOption : List Char → Argument
  | 'I' :: [] => .value .includeDir none
  | 'I' :: '=' :: value => .value .includeDir (some (String.ofList value))
  | 'I' :: value => .value .includeDir (some (String.ofList value))
  | 'h' :: _ => .help
  | 'V' :: _ => .version
  | _ => .unknown

def classify (text : String) : Argument :=
  match text.toList with
  | ['-', '-'] => .endOfOptions
  | '-' :: '-' :: long => longOption long
  | '-' :: c :: short => shortOption (c :: short)
  | _ => .plain text

/-- The value of an option: what is attached to it, or the next argument unless that looks like an
option itself. An empty value is none. -/
def optionValue? (attached : Option String) (rest : List String) :
    Option (String × List String) :=
  match attached, rest with
  | some value, rest => if value.isEmpty then none else some (value, rest)
  | none, next :: rest =>
    match classify next with
    | .plain value => if value.isEmpty then none else some (value, rest)
    | _ => none
  | none, [] => none

def setValue (options : Options) (value : String) : ValueOption → Option Options
  | .includeDir => some { options with includes := options.includes ++ [value] }
  | .libRoot => some { options with libRoots := options.libRoots ++ [value] }
  | .config =>
    if options.config.isSome then none else some { options with config := some value }

def setFlag (options : Options) : Flag → Option Options
  | .legacyRecordTypes =>
    if options.legacyRecordTypes then none else some { options with legacyRecordTypes := true }
  | .json => if options.json then none else some { options with json := true }

/-! ## Reading -/

/-- What one side of the command line holds: its options, the plain arguments behind each other, and
the arguments that were not looked at. -/
structure Side where
  options : Options
  plain : List String
  unread : List String

def misused (text : String) : Refusal :=
  .usage ("error: unexpected argument '" ++ text ++ "' found")

/-- Reads arguments as long as `wants` accepts the plain ones so far. Every step takes an argument,
so their number bounds the steps. -/
def readSide (allowVersion : Bool) (wants : Nat → Bool) (options : Options) (plain : List String) :
    Nat → List String → Except Refusal Side
  | _, [] => .ok ⟨options, plain, []⟩
  | 0, rest => .ok ⟨options, plain, rest⟩
  | steps + 1, text :: rest =>
    match classify text with
    | .plain value =>
      if wants plain.length then
        readSide allowVersion wants options (plain ++ [value]) steps rest
      else .ok ⟨options, plain, text :: rest⟩
    | .value option attached =>
      match optionValue? attached rest with
      | none => .error (.usage ("error: a value is required for '" ++ text ++ "'"))
      | some (value, rest) =>
        match setValue options value option with
        | some options => readSide allowVersion wants options plain steps rest
        | none => .error (misused text)
    | .flag flag =>
      match setFlag options flag with
      | some options => readSide allowVersion wants options plain steps rest
      | none => .error (misused text)
    | .help => .error .help
    | .version => if allowVersion then .error .version else .error (misused text)
    | .endOfOptions => .ok ⟨options, plain, text :: rest⟩
    | .unknown => .error (misused text)

/-- The arguments of a command, some of them behind `--`. -/
def allPlain (side : Side) : List String :=
  match side.unread with
  | "--" :: rest => side.plain ++ rest
  | rest => side.plain ++ rest

def ofPlain (name : String) (plain : List String) : Except Refusal Command :=
  match name, plain with
  | "translate", [file] => .ok (.includeFile file)
  | "lib", [name] => .ok (.includeLib name)
  | "expand", file :: macroName :: args => .ok (.expand file macroName args)
  | _, _ => .error (.usage "error: the arguments of the command do not fit it")

/-- How many plain arguments a command takes, if it is one. -/
def wants? (name : String) : Option (Nat → Bool) :=
  match name with
  | "translate" => some (· < 1)
  | "lib" => some (· < 1)
  | "expand" => some fun _ => true
  | _ => none

/-- Reads the arguments of the command line. -/
def parse (args : List String) : Except Refusal Invocation := do
  let outer ← readSide true (fun _ => false) Options.empty [] args.length args
  match outer.unread with
  | [] => .error (.usage "error: a command is required")
  | name :: rest =>
    match wants? name with
    | none => if name = "help" then .error .help else .error (misused name)
    | some wants =>
      let inner ← readSide false wants Options.empty [] rest.length rest
      let command ← ofPlain name (allPlain inner)
      return ⟨outer.options.merge inner.options, command⟩

end HeaderForms.CommandLine
