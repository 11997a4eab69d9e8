-- SUMMARY: Reading a header: its declarations in order, and its macro table.
import HeaderForms.Token.Lexer
import HeaderForms.Declaration.Parser
import HeaderForms.Macro.Directive
import HeaderForms.Macro.Expansion

/-!
# Headers

A header is read one declaration at a time. Macro definitions go into the table as they stand; every
other declaration has its macro uses expanded by the definitions before it and is then parsed. A
declaration that fails leaves its error behind and reading goes on with the next one.
-/

namespace HeaderForms

structure Header where
  declarations : List LocatedDeclaration
  macros : MacroTable

def RecordFieldDecl.untyped (field : RecordFieldDecl) : RecordFieldDecl :=
  { field with type := none }

namespace Header

/-! ## Chunks -/

/-- The runs of tokens that end with an end marker, and what is left behind the last one. `current`
is the run that is being read, in reverse. -/
def chunksFrom (current : List Token) : List Token → List (List Token)
  | [] => if current.isEmpty then [] else [current.reverse]
  | token :: rest =>
    if token.isDot then (token :: current).reverse :: chunksFrom [] rest
    else chunksFrom (token :: current) rest

def chunks (tokens : List Token) : List (List Token) :=
  chunksFrom [] tokens

def isComplete (chunk : List Token) : Bool :=
  chunk.getLast?.any (·.isDot)

/-! ## Macros -/

/-- The names that every header has definitions for. -/
def predefinedNames : List String :=
  ["MODULE", "MODULE_STRING", "LINE", "FILE", "MACHINE"]

def initialMacros : MacroTable :=
  predefinedNames.foldl (fun table name => table.define name .noArgs .predefined) .empty

/-- Directives that are recognised and not interpreted. -/
def ignoredDirectives : List String :=
  ["ifdef", "ifndef", "if", "elif", "else", "endif", "include", "include_lib"]

/-- The name of the attribute that a chunk declares. -/
def attribute? : List Token → Option String
  | first :: second :: _ => if first.isPunct .minus then Head.attributeName? second else none
  | _ => none

/-! ## Declarations -/

/-- In the legacy encoding a record with typed fields is two declarations, the record without its
types and the types of the record. -/
def splitRecord (legacy : Bool) : Declaration → List Declaration
  | .record name fields =>
    if legacy && fields.any (·.type.isSome) then
      [.record name (fields.map RecordFieldDecl.untyped), .recordType name fields]
    else [.record name fields]
  | declaration => [declaration]

/-- The declarations of a chunk that is no directive. -/
def readPlain (legacy : Bool) (context : FileContext) (macros : MacroTable) (chunk : List Token) :
    Except SourceError (List Declaration) := do
  let tokens ← Expansion.expand macros context chunk
  return splitRecord legacy (← Declaration.ofTokens tokens)

/-- The declarations that a complete chunk leaves and the macro table behind it. -/
def readChunk (legacy : Bool) (context : FileContext) (macros : MacroTable) (chunk : List Token) :
    List Declaration × MacroTable :=
  match attribute? chunk with
  | some "define" =>
    match Directive.readDefine chunk with
    | .ok define => ([], macros.define define.name define.arity define.definition)
    | .error error => ([.unreadable error], macros)
  | some "undef" =>
    match Directive.readUndef chunk with
    | .ok name => ([], macros.undefine name)
    | .error error => ([.unreadable error], macros)
  | other =>
    match other.filter ignoredDirectives.contains with
    | some name => ([.ignored name], macros)
    | none =>
      match readPlain legacy context macros chunk with
      | .ok declarations => (declarations, macros)
      | .error error => ([.unreadable error], macros)

def readChunks (legacy : Bool) (context : FileContext) :
    MacroTable → List (List Token) → List LocatedDeclaration × MacroTable
  | macros, [] => ([], macros)
  | macros, chunk :: rest =>
    let line := Directive.line chunk
    if isComplete chunk then
      let (declarations, macros) := readChunk legacy context macros chunk
      let (others, macros) := readChunks legacy context macros rest
      (declarations.map (⟨line, ·⟩) ++ others, macros)
    else ([⟨line, .unreadable ⟨line, .missingEndMarker⟩⟩], macros)

/-! ## Texts -/

/-- The declarations of a header end with the end of the file, on the line of the last token. -/
def ofTokens (legacy : Bool) (file : String) (tokens : List Token) : Header :=
  let (declarations, macros) :=
    readChunks legacy (FileContext.ofFile file) initialMacros (chunks tokens)
  let lastLine := (tokens.getLast?.map (·.line)).getD 1
  ⟨declarations ++ [⟨lastLine, .endOfFile⟩], macros⟩

/-- Reads the text of a header. `file` is its name, as predefined macros show it. -/
def ofText (legacy : Bool) (file source : String) : Except SourceError Header := do
  return ofTokens legacy file (← Token.ofText source)

end Header

end HeaderForms
