-- SUMMARY: Tokens of the header language: keywords, punctuation, lexemes, and their lines.
import HeaderForms.Float64.Basic

/-!
# Tokens

A token is a lexeme and the line it starts on. Macro bodies are kept as tokens and not as text, so
tokens are data that the rest of the library passes around, prints and compares.
-/

namespace HeaderForms

/-! ## Keywords -/

inductive Keyword where
  | after | and_ | andalso | band | begin_ | bnot | bor | bsl | bsr | bxor | case_ | catch_
  | cond | div | end_ | fun_ | if_ | let_ | not_ | of_ | or_ | orelse | receive | rem | try_
  | when | xor
deriving DecidableEq, Repr

namespace Keyword

def all : List Keyword :=
  [.after, .and_, .andalso, .band, .begin_, .bnot, .bor, .bsl, .bsr, .bxor, .case_, .catch_,
   .cond, .div, .end_, .fun_, .if_, .let_, .not_, .of_, .or_, .orelse, .receive, .rem, .try_,
   .when, .xor]

def text : Keyword → String
  | .after => "after"
  | .and_ => "and"
  | .andalso => "andalso"
  | .band => "band"
  | .begin_ => "begin"
  | .bnot => "bnot"
  | .bor => "bor"
  | .bsl => "bsl"
  | .bsr => "bsr"
  | .bxor => "bxor"
  | .case_ => "case"
  | .catch_ => "catch"
  | .cond => "cond"
  | .div => "div"
  | .end_ => "end"
  | .fun_ => "fun"
  | .if_ => "if"
  | .let_ => "let"
  | .not_ => "not"
  | .of_ => "of"
  | .or_ => "or"
  | .orelse => "orelse"
  | .receive => "receive"
  | .rem => "rem"
  | .try_ => "try"
  | .when => "when"
  | .xor => "xor"

def ofText? (text : String) : Option Keyword :=
  all.find? (·.text == text)

end Keyword

/-! ## Punctuation -/

inductive Punct where
  | ellipsis | exactEqual | exactDiffer | range | doubleColon | arrow | leftArrow
  | leftDoubleArrow | rightDoubleArrow | colonEquals | equal | differ | atMost | atLeast
  | append | subtract | openBinary | closeBinary | doubleBar | openParen | closeParen
  | openBracket | closeBracket | openBrace | closeBrace | comma | semicolon | colon | bar
  | question | hash | plus | minus | star | slash | less | greater | equals | bang | period
deriving DecidableEq, Repr

namespace Punct

/-- Every mark, longer ones before the ones they begin with. -/
def all : List Punct :=
  [.ellipsis, .exactEqual, .exactDiffer, .range, .doubleColon, .arrow, .leftArrow,
   .leftDoubleArrow, .rightDoubleArrow, .colonEquals, .equal, .differ, .atMost, .atLeast, .append,
   .subtract, .openBinary, .closeBinary, .doubleBar, .openParen, .closeParen, .openBracket,
   .closeBracket, .openBrace, .closeBrace, .comma, .semicolon, .colon, .bar, .question, .hash,
   .plus, .minus, .star, .slash, .less, .greater, .equals, .bang, .period]

def text : Punct → String
  | .ellipsis => "..."
  | .exactEqual => "=:="
  | .exactDiffer => "=/="
  | .range => ".."
  | .doubleColon => "::"
  | .arrow => "->"
  | .leftArrow => "<-"
  | .leftDoubleArrow => "<="
  | .rightDoubleArrow => "=>"
  | .colonEquals => ":="
  | .equal => "=="
  | .differ => "/="
  | .atMost => "=<"
  | .atLeast => ">="
  | .append => "++"
  | .subtract => "--"
  | .openBinary => "<<"
  | .closeBinary => ">>"
  | .doubleBar => "||"
  | .openParen => "("
  | .closeParen => ")"
  | .openBracket => "["
  | .closeBracket => "]"
  | .openBrace => "\x7b"
  | .closeBrace => "\x7d"
  | .comma => ","
  | .semicolon => ";"
  | .colon => ":"
  | .bar => "|"
  | .question => "?"
  | .hash => "#"
  | .plus => "+"
  | .minus => "-"
  | .star => "*"
  | .slash => "/"
  | .less => "<"
  | .greater => ">"
  | .equals => "="
  | .bang => "!"
  | .period => "."

end Punct

/-! ## Tokens -/

inductive Lexeme where
  | atom (name : String)
  | var (name : String)
  | integer (value : Nat)
  /-- An integer of 2^63 or more, as written. -/
  | bigInteger (text : String)
  | float (value : Float64)
  | char (value : Char)
  | string (text : String)
  | keyword (word : Keyword)
  | punct (mark : Punct)
  /-- The point that ends a declaration. -/
  | dot
deriving DecidableEq, Repr

structure Token where
  lexeme : Lexeme
  line : Nat
deriving DecidableEq, Repr

namespace Token

def isPunct (mark : Punct) (token : Token) : Bool :=
  token.lexeme = .punct mark

def isDot (token : Token) : Bool :=
  token.lexeme = .dot

/-- The name of an atom or a variable, the two kinds of token that can name a macro. -/
def name? (token : Token) : Option String :=
  match token.lexeme with
  | .atom name => some name
  | .var name => some name
  | _ => none

end Token

end HeaderForms
