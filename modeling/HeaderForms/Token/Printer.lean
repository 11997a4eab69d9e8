-- SUMMARY: The printed text of tokens.
import HeaderForms.Numeral
import HeaderForms.Float64.Shortest
import HeaderForms.Token.Basic

/-!
# Printing tokens

The printed text of a token sequence is source text, with one space between tokens. An atom that
would not read as itself stands between quotes.
-/

namespace HeaderForms

open Numeral

namespace Lexeme

def isNameChar (c : Char) : Bool :=
  isLetter c || isDigit c || c = '_' || c = '@'

def isLower (c : Char) : Bool :=
  'a' ≤ c && c ≤ 'z'

def isBareAtom (name : String) : Bool :=
  match name.toList with
  | c :: cs => isLower c && cs.all isNameChar && (Keyword.ofText? name).isNone
  | [] => false

def escaped (quote : Char) (c : Char) : List Char :=
  if c = '\n' then ['\\', 'n']
  else if c = '\t' then ['\\', 't']
  else if c = '\\' || c = quote then ['\\', c]
  else [c]

def enclosed (quote : Char) (text : String) : List Char :=
  quote :: text.toList.flatMap (escaped quote) ++ [quote]

def chars : Lexeme → List Char
  | .atom name => if isBareAtom name then name.toList else enclosed '\x27' name
  | .var name => name.toList
  | .integer value => naturalChars value
  | .bigInteger text => text.toList
  | .float value => value.chars .display
  | .char value => '$' :: escaped '\x00' value
  | .string text => enclosed '"' text
  | .keyword word => word.text.toList
  | .punct mark => mark.text.toList
  | .dot => ['.']

def text (lexeme : Lexeme) : String :=
  String.ofList lexeme.chars

end Lexeme

namespace Token

def textOf (tokens : List Token) : String :=
  " ".intercalate (tokens.map (·.lexeme.text))

end Token

end HeaderForms
