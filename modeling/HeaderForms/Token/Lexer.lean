-- SUMMARY: The lexer: tokens of header source text, longest match first.
import HeaderForms.Text.Blank
import HeaderForms.Token.Escape

/-!
# Lexer

Each token is the longest that its first character allows. Blanks and comments, from `%` to the end
of the line, stand between tokens. A token keeps the line it starts on: one more than the number of
newlines before it.

A reader below takes a text that starts with a token and splits it into the text of that token and
the text behind it.
-/

namespace HeaderForms

namespace Lexer

open Numeral

/-- A token split off a text: its lexeme, its own text, and the text behind it. -/
structure Scanned where
  lexeme : Lexeme
  text : List Char
  rest : List Char

abbrev Step := Except SourceFault Scanned

def illegal (text : List Char) : SourceFault :=
  .illegalToken (String.ofList text)

/-! ## Blanks -/

def isGap (c : Char) : Bool :=
  c = ' ' || c = '\t' || c = '\r' || c = '\n' || c = '\x0c'

/-- The blanks and comments in front of a token. The first argument says whether the text starts
inside a comment. -/
def gapText : Bool → List Char → List Char
  | true, c :: cs => c :: gapText (c ≠ '\n') cs
  | false, c :: cs =>
    if isGap c then c :: gapText false cs
    else if c = '%' then c :: gapText true cs
    else []
  | _, [] => []

/-- The text behind the blanks and comments. -/
def skipGap : Bool → List Char → List Char
  | true, c :: cs => skipGap (c ≠ '\n') cs
  | false, c :: cs =>
    if isGap c then skipGap false cs
    else if c = '%' then skipGap true cs
    else c :: cs
  | _, [] => []

def newlines (cs : List Char) : Nat :=
  cs.count '\n'

/-! ## Names -/

def isUpper (c : Char) : Bool :=
  'A' ≤ c && c ≤ 'Z'

def word (name : List Char) : Lexeme :=
  let text := String.ofList name
  match Keyword.ofText? text with
  | some keyword => .keyword keyword
  | none => .atom text

def nameToken (lexeme : List Char → Lexeme) (cs : List Char) : Step :=
  let name := cs.takeWhile Lexeme.isNameChar
  .ok ⟨lexeme name, name, cs.dropWhile Lexeme.isNameChar⟩

/-! ## Quoted text -/

/-- The text up to an unescaped `quote` and, if there is one, the text behind it. A backslash must
stand before a character other than a newline. -/
def quotedText (quote : Char) : List Char → List Char × Option (List Char)
  | '\\' :: c :: cs =>
    if c = '\n' then ([], none)
    else
      let (text, rest) := quotedText quote cs
      ('\\' :: c :: text, rest)
  | c :: cs =>
    if c = quote then ([], some cs)
    else if c = '\\' then ([], none)
    else
      let (text, rest) := quotedText quote cs
      (c :: text, rest)
  | [] => ([], none)

def quotedToken (quote : Char) (lexeme : String → Lexeme) (cs : List Char) : Step :=
  match quotedText quote cs with
  | (text, some rest) => do
    let value ← Escape.unescape text
    return ⟨lexeme (String.ofList value), quote :: text ++ [quote], rest⟩
  | (text, none) => .error (illegal (quote :: text))

/-! ## Character literals -/

def isHex (c : Char) : Bool :=
  isDigitOf 16 c

/-- The text of a character literal behind its `$`, or as much of a braced code as was read. -/
def characterText : List Char → Except (List Char) (List Char × List Char)
  | '\\' :: c :: cs =>
    if Escape.isOctal c then
      let more := (cs.take 2).takeWhile Escape.isOctal
      .ok ('\\' :: c :: more, cs.drop more.length)
    else if c = '^' then
      match cs with
      | d :: rest => if d = '\n' then .error [] else .ok (['\\', '^', d], rest)
      | [] => .error []
    else if c = 'x' then
      match cs with
      | '\x7b' :: inner =>
        let digits := inner.takeWhile isHex
        match digits, inner.dropWhile isHex with
        | [], _ => .error []
        | _, '\x7d' :: rest => .ok (['\\', 'x', '\x7b'] ++ digits ++ ['\x7d'], rest)
        | _, _ => .error (['\\', 'x', '\x7b'] ++ digits)
      | a :: b :: rest =>
        if isHex a && isHex b then .ok (['\\', 'x', a, b], rest) else .error []
      | _ => .error []
    else .ok (['\\', c], cs)
  | ['\\'] => .error []
  | c :: cs => .ok ([c], cs)
  | [] => .error []

def characterToken (cs : List Char) : Step :=
  match characterText cs with
  | .ok (text, rest) => do
    match ← Escape.unescape text with
    | [c] => return ⟨.char c, '$' :: text, rest⟩
    | _ => .error (.badCharacter (String.ofList ('$' :: text)))
  | .error text => .error (illegal ('$' :: text))

/-! ## Numbers -/

/-- A natural number, kept as text when it takes 64 bits or more. -/
def integerLexeme (value : Nat) (text : List Char) : Lexeme :=
  if inInt64 value then .integer value else .bigInteger (String.ofList text)

/-- Digits of an explicit base, `base#digits`. A mark without digits behind it is no part of the
number. -/
def radixToken (base rest : List Char) : Step :=
  let digits := rest.takeWhile fun c => isLetter c || isDigit c
  let number := ofDigits 10 0 base
  if digits.isEmpty then
    if inInt64 number then .ok ⟨.integer number, base, '#' :: rest⟩ else .error (illegal base)
  else if 2 ≤ number && number ≤ 36 && digits.all (isDigitOf number) then
    let text := base ++ '#' :: digits
    .ok ⟨integerLexeme (ofDigits number 0 digits) text, text, rest.drop digits.length⟩
  else .error (illegal base)

/-- The exponent at the front of a text, if there is one, and the text behind it. -/
def exponentText (cs : List Char) : List Char × List Char :=
  match cs with
  | c :: more =>
    let digits := (splitSign more).2
    if (c = 'e' || c = 'E') && (digits.head?.any isDigit) then
      let rest := digits.dropWhile isDigit
      (cs.take (cs.length - rest.length), rest)
    else ([], cs)
  | [] => ([], [])

/-- A number with a point, `whole.places`, and perhaps an exponent. -/
def floatToken (whole rest : List Char) : Step :=
  let places := rest.takeWhile isDigit
  let (exponent, behind) := exponentText (rest.dropWhile isDigit)
  let text := whole ++ '.' :: places ++ exponent
  match Float64.parse? text with
  | some value => .ok ⟨.float value, text, behind⟩
  | none => .error (illegal whole)

def decimalToken (digits rest : List Char) : Step :=
  .ok ⟨integerLexeme (ofDigits 10 0 digits) digits, digits, rest⟩

def numberToken (cs : List Char) : Step :=
  let digits := cs.takeWhile isDigit
  match cs.dropWhile isDigit with
  | '#' :: rest => radixToken digits rest
  | '.' :: c :: rest =>
    if isDigit c then floatToken digits (c :: rest)
    else decimalToken digits ('.' :: c :: rest)
  | rest => decimalToken digits rest

/-! ## Marks -/

/-- Whether a point is the end of a declaration, from the text behind it. -/
def endsDeclaration : List Char → Bool
  | c :: _ => Text.isBlank c || c = '%'
  | [] => true

def punctAt? (cs : List Char) : Option Punct :=
  Punct.all.find? fun mark => mark.text.toList.isPrefixOf cs

def punctToken (cs : List Char) : Step :=
  match punctAt? cs with
  | some .period =>
    let rest := cs.drop 1
    .ok ⟨if endsDeclaration rest then .dot else .punct .period, ['.'], rest⟩
  | some mark =>
    let text := mark.text.toList
    .ok ⟨.punct mark, text, cs.drop text.length⟩
  | none => .error (illegal (cs.take 1))

/-! ## Texts -/

/-- Splits off the token at the front of a text. -/
def scan (cs : List Char) : Step :=
  match cs with
  | [] => .error (illegal [])
  | c :: rest =>
    if Lexeme.isLower c then nameToken word cs
    else if isUpper c || c = '_' then nameToken (.var ∘ String.ofList) cs
    else if isDigit c then numberToken cs
    else if c = '\x27' then quotedToken c .atom rest
    else if c = '"' then quotedToken c .string rest
    else if c = '$' then characterToken rest
    else punctToken cs

/-- The tokens of a text that starts on `line`. A token takes at least one character, so the length
of the text bounds their number. -/
def tokensWithin : Nat → Nat → List Char → Except SourceError (List Token)
  | 0, _, _ => .ok []
  | steps + 1, line, cs =>
    let start := skipGap false cs
    if start.isEmpty then .ok []
    else
      let line := line + newlines (gapText false cs)
      match scan start with
      | .error fault => .error ⟨line, fault⟩
      | .ok scanned => do
        let tokens ← tokensWithin steps (line + newlines scanned.text) scanned.rest
        return ⟨scanned.lexeme, line⟩ :: tokens

end Lexer

namespace Token

/-- The tokens of a source text. -/
def ofText (source : String) : Except SourceError (List Token) :=
  let cs := source.toList
  Lexer.tokensWithin (cs.length + 1) 1 cs

end Token

end HeaderForms
