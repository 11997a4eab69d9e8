-- SUMMARY: JSON values and their indented text.
import HeaderForms.Numeral
import HeaderForms.Float64.Shortest
import HeaderForms.Text.Quoted

/-!
# JSON

JSON values and the text that shows them, indented by two spaces for each level. The fields of an
object stand in the order in which they are given. A number that is not finite is `null`.
-/

namespace HeaderForms

inductive Json where
  | null
  | integer (value : Int)
  | float (value : Float64)
  | string (text : String)
  | array (items : List Json)
  | object (fields : List (String × Json))

namespace Json

/-! ## Strings -/

/-- Four hexadecimal digits. -/
def codeDigits (n : Nat) : List Char :=
  let digits := Text.hexDigits n
  List.replicate (4 - digits.length) '0' ++ digits

def escaped (c : Char) : List Char :=
  if c = '"' || c = '\\' then ['\\', c]
  else if c = '\x08' then ['\\', 'b']
  else if c = '\x0c' then ['\\', 'f']
  else if c = '\n' then ['\\', 'n']
  else if c = '\r' then ['\\', 'r']
  else if c = '\t' then ['\\', 't']
  else if c.toNat < 0x20 then '\\' :: 'u' :: codeDigits c.toNat
  else [c]

def quoted (text : String) : String :=
  String.ofList ('"' :: text.toList.flatMap escaped ++ ['"'])

/-! ## Values -/

def indent (level : Nat) : String :=
  String.ofList (List.replicate (2 * level) ' ')

/-- Items between two marks, each on a line of its own. -/
def block (opening closing : String) (level : Nat) (items : List String) : String :=
  if items.isEmpty then opening ++ closing
  else
    let lines := items.map fun item => indent (level + 1) ++ item
    opening ++ "\n" ++ ",\n".intercalate lines ++ "\n" ++ indent level ++ closing

def floatText (value : Float64) : String :=
  if value.isFinite then String.ofList (value.chars .json) else "null"

mutual

/-- The text of a value that stands `level` levels deep. -/
def pretty (level : Nat) : Json → String
  | .null => "null"
  | .integer value => toString value
  | .float value => floatText value
  | .string text => quoted text
  | .array items => block "[" "]" level (prettyItems (level + 1) items)
  | .object fields => block "\x7b" "\x7d" level (prettyFields (level + 1) fields)

def prettyItems (level : Nat) : List Json → List String
  | [] => []
  | item :: items => pretty level item :: prettyItems level items

def prettyFields (level : Nat) : List (String × Json) → List String
  | [] => []
  | (key, value) :: fields =>
    (quoted key ++ ": " ++ pretty level value) :: prettyFields level fields

end

def text (json : Json) : String :=
  pretty 0 json

end Json

end HeaderForms
