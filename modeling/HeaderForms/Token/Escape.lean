-- SUMMARY: Escape sequences inside quoted atoms, strings and character literals.
import HeaderForms.Numeral
import HeaderForms.SourceError

/-!
# Escape sequences

A backslash and what follows it stand for one character: a letter for a control character, up to
three octal digits or two hexadecimal ones for a code, `\x{…}` for a code of any length, `\^` and a
character for the control character in its low five bits, and any other character for itself.
-/

namespace HeaderForms.Escape

open Numeral

/-- The character that a single letter stands for. -/
def letter? (c : Char) : Option Char :=
  match c with
  | 'n' => some '\n'
  | 't' => some '\t'
  | 'r' => some '\r'
  | 's' => some ' '
  | 'e' => some '\x1b'
  | 'b' => some '\x08'
  | 'f' => some '\x0c'
  | 'v' => some '\x0b'
  | 'd' => some '\x7f'
  | _ => none

def isOctal (c : Char) : Bool :=
  '0' ≤ c && c ≤ '7'

def char? (code : Nat) : Option Char :=
  if h : code.isValidChar then some (Char.ofNatAux code h) else none

/-- The character whose code is written in hexadecimal, with an optional plus sign. -/
def hexChar? (digits : List Char) : Option Char :=
  (natural? 16 (stripPlus digits)).bind char?

def control (c : Char) : Char :=
  Char.ofNat (c.toNat % 32)

/-- The character that begins a text behind its backslash, and the text behind the escape. -/
def resolve : List Char → Except SourceFault (Char × List Char)
  | [] => .error .unterminatedEscape
  | c :: cs =>
    if isOctal c then
      let more := (cs.take 2).takeWhile isOctal
      .ok (Char.ofNat (ofDigits 8 0 (c :: more)), cs.drop more.length)
    else if c = 'x' then
      let (digits, rest) :=
        match cs with
        | '\x7b' :: inner =>
          (inner.takeWhile (· ≠ '\x7d'), (inner.dropWhile (· ≠ '\x7d')).drop 1)
        | _ => (cs.take 2, cs.drop 2)
      match hexChar? digits with
      | some value => .ok (value, rest)
      | none => .error (.badHexEscape (String.ofList digits))
    else if c = '^' then
      match cs with
      | d :: rest => .ok (control d, rest)
      | [] => .error .unterminatedControl
    else
      .ok ((letter? c).getD c, cs)

/-- Resolves the escapes of a text. Every step leaves less text, so its length bounds the steps. -/
def unescapeWithin : Nat → List Char → Except SourceFault (List Char)
  | _, [] => .ok []
  | 0, _ => .ok []
  | steps + 1, c :: cs =>
    if c = '\\' then do
      let (value, rest) ← resolve cs
      return value :: (← unescapeWithin steps rest)
    else return c :: (← unescapeWithin steps cs)

def unescape (cs : List Char) : Except SourceFault (List Char) :=
  unescapeWithin cs.length cs

end HeaderForms.Escape
