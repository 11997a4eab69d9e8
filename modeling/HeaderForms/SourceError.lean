-- SUMMARY: What can be wrong with the source text of a header, and where.
import HeaderForms.Text.Quoted
import HeaderForms.Numeral
import HeaderForms.Token.Printer

/-!
# Source errors

A source error names a line of the header and the cause of the failure there. The causes come from
the lexer, the grammar, the directives that define macros, and the expansion of macro uses. Their
wording is written once, in `message`.
-/

namespace HeaderForms

/-! ## Expectations -/

/-- What the grammar wanted at the place of a failure. -/
inductive Expected where
  | punct (mark : Punct)
  | keyword (word : Keyword)
  | endMarker
  | endOfForm
  | atom
  | variable
  | integer
  | expression
  | type
  | mapArrow
  | declaration
deriving DecidableEq, Repr

def Expected.text : Expected → String
  | .punct mark => "'" ++ mark.text ++ "'"
  | .keyword word => "'" ++ word.text ++ "'"
  | .endMarker => "'.'"
  | .endOfForm => "end of form"
  | .atom => "an atom"
  | .variable => "a variable"
  | .integer => "an integer"
  | .expression => "an expression"
  | .type => "a type"
  | .mapArrow => "'=>' or ':='"
  | .declaration => "a function or attribute"

/-! ## Causes -/

inductive SourceFault where
  -- lexer
  | illegalToken (text : String)
  | unterminatedEscape
  | unterminatedControl
  | badHexEscape (digits : String)
  | badCharacter (text : String)
  -- grammar
  | expected (wanted : Expected) (found : Option Lexeme)
  | expectedAttributeName
  | expectedFieldName
  | oversizedInteger (text : String)
  | unsupportedExpression (word : Keyword)
  | unsupportedFun
  | badArity (arity : Int)
  | expressionCount (found : Nat)
  | mixedArities (spec : String)
  | headMismatch (found function : String)
  | differingArities (function : String)
  -- directives
  | missingEndMarker
  | malformedDirective
  | badDefineName
  | badUndefName
  | badParameters (name : String)
  | badDefine (name : String)
  | badUndef
  -- expansion
  | tooLarge
  | tooDeep
  | missingMacroName
  | undefinedMacro (name : String)
  | unterminatedArguments
deriving DecidableEq, Repr

def SourceFault.message : SourceFault → String
  | .illegalToken text => "illegal token starting at " ++ Text.quoted text
  | .unterminatedEscape => "unterminated escape sequence"
  | .unterminatedControl => "unterminated control escape"
  | .badHexEscape digits => "bad hex escape \\x" ++ digits
  | .badCharacter text => "bad character literal " ++ text
  | .expected wanted (some found) => "expected " ++ wanted.text ++ ", found '" ++ found.text ++ "'"
  | .expected wanted none => "expected " ++ wanted.text ++ ", found end of input"
  | .expectedAttributeName => "expected an attribute name"
  | .expectedFieldName => "expected a record field name"
  | .oversizedInteger text => "integer " ++ text ++ " does not fit in 64 bits"
  | .unsupportedExpression word => "unsupported expression '" ++ word.text ++ "'"
  | .unsupportedFun => "unsupported fun expression"
  | .badArity arity => s!"bad arity {arity}"
  | .expressionCount found => s!"expected a single expression, found {found}"
  | .mixedArities spec => "spec for " ++ spec ++ " mixes arities"
  | .headMismatch found function => "head mismatch: clause for " ++ found ++ " inside " ++ function
  | .differingArities function => "clauses of " ++ function ++ " differ in arity"
  | .missingEndMarker => "declaration is missing its end marker"
  | .malformedDirective => "malformed preprocessor directive"
  | .badDefineName => "bad macro name in define"
  | .badUndefName => "bad macro name in undef"
  | .badParameters name => "bad parameter list for macro " ++ name
  | .badDefine name => "bad define for macro " ++ name
  | .badUndef => "bad undef"
  | .tooLarge => "macro expansion too large"
  | .tooDeep => "macro expansion too deep"
  | .missingMacroName => "'?' must be followed by a macro name"
  | .undefinedMacro name => "undefined macro '" ++ name ++ "'"
  | .unterminatedArguments => "unterminated macro argument list"

structure SourceError where
  line : Nat
  fault : SourceFault
deriving DecidableEq, Repr

/-- The cause with its line in front. -/
def SourceError.message (error : SourceError) : String :=
  s!"line {error.line}: " ++ error.fault.message

end HeaderForms
