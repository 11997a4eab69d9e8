-- SUMMARY: The printed text of forms.
import HeaderForms.Text.Blank
import HeaderForms.Numeral
import HeaderForms.Float64.Shortest
import HeaderForms.Form.Basic

/-!
# Printing forms

The printed text of a form is one line that the reader takes back to the form. Two-element lists
headed by a quotation symbol are abbreviated, and a symbol whose bare text would read as something
else stands between bars.
-/

namespace HeaderForms.Form

open Text

/-! ## Symbols -/

/-- The quotation symbols and what they abbreviate to. -/
def abbreviations : List (String × String) :=
  [("quote", "'"), ("backquote", "\x60"), ("comma-at", ",@"), ("comma", ",")]

def abbreviation? (head : String) : Option String :=
  (abbreviations.find? fun (name, _) => name == head).map (·.2)

def isDelimiter (c : Char) : Bool :=
  ['(', ')', '[', ']', '"', '\x27', '\x60', ',', ';', '|', '\\'].contains c

/-- Whether a symbol is printed without bars: its text holds only characters that belong to a
symbol, is no number, and cannot start another kind of form. -/
def isBare (name : List Char) : Bool :=
  !name.isEmpty && name != ['.'] && name.head? != some '#'
    && (Numeral.int64? name).isNone && (Float64.parse? name).isNone
    && name.all fun c => !isBlank c && !isControl c && !isDelimiter c

def barEscaped (c : Char) : List Char :=
  if c = '|' || c = '\\' then ['\\', c] else [c]

def symbolChars (name : List Char) : List Char :=
  if isBare name then name else '|' :: name.flatMap barEscaped ++ ['|']

/-! ## Strings -/

def stringEscaped (c : Char) : List Char :=
  match c with
  | '"' => ['\\', '"']
  | '\\' => ['\\', '\\']
  | '\n' => ['\\', 'n']
  | '\t' => ['\\', 't']
  | '\r' => ['\\', 'r']
  | c => [c]

def stringChars (text : List Char) : List Char :=
  '"' :: text.flatMap stringEscaped ++ ['"']

/-! ## Forms -/

/-- Joins texts with one space between them. -/
def spaced (texts : List (List Char)) : List Char :=
  [' '].intercalate texts

def byteChars (byte : UInt8) : List Char :=
  Numeral.naturalChars byte.toNat

mutual

def chars : Form → List Char
  | .symbol name => symbolChars name.toList
  | .integer value => Numeral.integerChars value
  | .float value => value.chars .display
  | .string text => stringChars text.toList
  | .list [.symbol head, inner] =>
    match abbreviation? head with
    | some short => short.toList ++ chars inner
    | none => '(' :: symbolChars head.toList ++ ' ' :: chars inner ++ [')']
  | .list items => '(' :: spaced (charsAll items) ++ [')']
  | .dotted items tail => '(' :: spaced (charsAll items) ++ [' ', '.', ' '] ++ chars tail ++ [')']
  | .tuple items => '#' :: '(' :: spaced (charsAll items) ++ [')']
  | .binary bytes => ['#', 'B', '('] ++ spaced (bytes.map byteChars) ++ [')']

def charsAll : List Form → List (List Char)
  | [] => []
  | form :: forms => chars form :: charsAll forms

end

def text (form : Form) : String :=
  String.ofList form.chars

end HeaderForms.Form
