-- SUMMARY: Quoted texts and characters, in the notation diagnostics use to show source text.
import HeaderForms.Text.Printable
import HeaderForms.Text.Combining

/-!
# Quoted text

The notation in which diagnostics show a piece of source text. What stands between the quotes is
visible ASCII or a printable character: anything else is written as an escape, so that a reader of
the message can tell which characters the text holds.
-/

namespace HeaderForms.Text

/-! ## Hexadecimal digits -/

def hexDigits (n : Nat) : List Char :=
  Nat.toDigits 16 n

/-! ## Escapes -/

/-- The form of one character between two `quote`s. -/
def escaped (quote : Char) (c : Char) : List Char :=
  if c = '\x00' then ['\\', '0']
  else if c = '\t' then ['\\', 't']
  else if c = '\r' then ['\\', 'r']
  else if c = '\n' then ['\\', 'n']
  else if c = '\\' || c = quote then ['\\', c]
  else if isCombining c || !isPrintable c then
    '\\' :: 'u' :: '\x7b' :: hexDigits c.toNat ++ ['\x7d']
  else [c]

def quotedChars (cs : List Char) : List Char :=
  '"' :: cs.flatMap (escaped '"') ++ ['"']

/-- A text between double quotes. -/
def quoted (s : String) : String :=
  String.ofList (quotedChars s.toList)

/-- A character between single quotes. -/
def quotedChar (c : Char) : String :=
  String.ofList ('\x27' :: escaped '\x27' c ++ ['\x27'])

end HeaderForms.Text
