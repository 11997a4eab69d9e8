-- SUMMARY: YAML tokens, and those that stand before a node or a document.
import HeaderForms.Yaml.Basic
import HeaderForms.Yaml.Scalar

/-!
# Tokens

The tokens of YAML text tell its structure without its indentation: a block collection is enclosed
in tokens of its own, and a key is marked even where only the colon behind it tells that it is one.

Directives, anchors, aliases and tags are each read from the text behind their first character; the
readers answer with the token and the text behind it.
-/

namespace HeaderForms.Yaml

inductive Token where
  /-- The version that a document asks for. -/
  | version (major minor : Nat)
  /-- What a handle stands for in the tags of a document. -/
  | tagHandle (name text : String)
  | documentStart
  | documentEnd
  | blockSequence
  | blockMapping
  | blockEnd
  | flowSequence
  | flowSequenceEnd
  | flowMapping
  | flowMappingEnd
  | entry
  | comma
  | key
  | value
  | alias (name : String)
  | anchor (name : String)
  | tag (handle suffix : String)
  | scalar (style : ScalarStyle) (text : String)
deriving DecidableEq, Repr

namespace Token

def isNameChar (c : Char) : Bool :=
  c.isAlphanum || c = '_' || c = '-'

def nameText (cs : List Char) : List Char × List Char :=
  (cs.takeWhile isNameChar, cs.dropWhile isNameChar)

/-! ## Anchors and aliases -/

/-- The name of an anchor or of an alias. -/
def name? (cs : List Char) : Option (String × List Char) :=
  let (name, rest) := nameText cs
  if name.isEmpty then none
  else if startsBlank rest
      || rest.head?.any (['?', ':', ',', ']', '\x7d', '%', '@', '\x60'].contains ·) then
    some (String.ofList name, rest)
  else none

/-! ## Tags -/

/-- An octet that is written as two hexadecimal digits. -/
def octet? : List Char → Option (Nat × List Char)
  | '%' :: high :: low :: rest => (Numeral.natural? 16 [high, low]).map (·, rest)
  | _ => none

/-- How many octets follow a leading octet, and what it adds to the code. -/
def leadingOctet? (octet : Nat) : Option (Nat × Nat) :=
  if octet < 0x80 then some (0, octet)
  else if octet < 0xc0 then none
  else if octet < 0xe0 then some (1, octet - 0xc0)
  else if octet < 0xf0 then some (2, octet - 0xe0)
  else if octet < 0xf8 then some (3, octet - 0xf0)
  else none

/-- The code behind `count` more octets. -/
def trailingOctets? : Nat → Nat → List Char → Option (Nat × List Char)
  | 0, code, cs => some (code, cs)
  | count + 1, code, cs => do
    let (octet, rest) ← octet? cs
    if octet < 0x80 || 0xc0 ≤ octet then none
    trailingOctets? count (code * 64 + (octet - 0x80)) rest

/-- The character that octets stand for. Octets that stand for none are replaced. -/
def octetsChar? (cs : List Char) : Option (Char × List Char) := do
  let (octet, rest) ← octet? cs
  let (count, code) ← leadingOctet? octet
  let (code, rest) ← trailingOctets? count code rest
  let isChar := count = 0 || (0x80 ≤ code && code.isValidChar)
  return (if isChar then Char.ofNat code else '\ufffd', rest)

/-- Whether a tag may hold a character. Between angle brackets it may hold marks of flow
sequences. -/
def isTagChar (verbatim : Bool) (c : Char) : Bool :=
  isNameChar c
    || [';', '/', '?', ':', '@', '&', '=', '+', '$', '.', '!', '~', '*', '\x27', '(', ')'].contains c
    || (verbatim && [',', '[', ']'].contains c)

/-- The longest text of a tag. -/
def tagText? (verbatim : Bool) : Nat → List Char → Option (List Char × List Char)
  | 0, _ => none
  | _, [] => some ([], [])
  | steps + 1, c :: cs =>
    if c = '%' then do
      let (decoded, rest) ← octetsChar? (c :: cs)
      let (text, last) ← tagText? verbatim steps rest
      return (decoded :: text, last)
    else if isTagChar verbatim c then
      (tagText? verbatim steps cs).map fun (text, last) => (c :: text, last)
    else some ([], c :: cs)

/-- The text of a tag that must not be empty. -/
def someTagText? (verbatim : Bool) (cs : List Char) : Option (List Char × List Char) :=
  (tagText? verbatim (cs.length + 1) cs).filter (!·.1.isEmpty)

/-- The handle behind an exclamation mark, with that mark and the one at its end, if it has one. -/
def handleText (cs : List Char) : List Char × List Char :=
  match nameText cs with
  | (name, '!' :: rest) => ('!' :: name ++ ['!'], rest)
  | (name, rest) => ('!' :: name, rest)

def isHandle (text : List Char) : Bool :=
  1 < text.length && text.getLast? = some '!'

/-- The handle and the suffix of a tag, from the text behind its exclamation mark. A tag between
angle brackets has no handle, nor has the tag that is only an exclamation mark. -/
def tagParts? (cs : List Char) : Option (List Char × List Char × List Char) :=
  match cs with
  | '<' :: cs => do
    let (suffix, rest) ← someTagText? true cs
    if rest.head? = some '>' then return ([], suffix, rest.drop 1) else none
  | cs => do
    let (handle, rest) := handleText cs
    if isHandle handle then do
      let (suffix, rest) ← someTagText? false rest
      return (handle, suffix, rest)
    else do
      let (more, rest) ← tagText? false (rest.length + 1) rest
      let suffix := handle.drop 1 ++ more
      return if suffix.isEmpty then ([], ['!'], rest) else (['!'], suffix, rest)

def tag? (inFlow : Bool) (cs : List Char) : Option (Token × List Char) := do
  let (handle, suffix, rest) ← tagParts? cs
  if startsBlank rest || (inFlow && rest.head? = some ',') then
    return (.tag (String.ofList handle) (String.ofList suffix), rest)
  else none

/-! ## Directives -/

/-- A number of at most nine digits. -/
def versionNumber? (cs : List Char) : Option (Nat × List Char) :=
  let digits := cs.takeWhile (·.isDigit)
  if 9 < digits.length then none
  else (Numeral.natural? 10 digits).map (·, cs.dropWhile (·.isDigit))

def version? (cs : List Char) : Option (Token × List Char) := do
  let (major, rest) ← versionNumber? (cs.dropWhile isBlank)
  match rest with
  | '.' :: rest =>
    let (minor, rest) ← versionNumber? rest
    return (.version major minor, rest)
  | _ => none

def tagHandle? (cs : List Char) : Option (Token × List Char) :=
  match cs.dropWhile isBlank with
  | '!' :: cs => do
    let (handle, rest) := handleText cs
    if !isHandle handle && handle ≠ ['!'] then none
    if !rest.head?.any isBlank then none
    let (text, rest) ← someTagText? true (rest.dropWhile isBlank)
    if startsBlank rest then return (.tagHandle (String.ofList handle) (String.ofList text), rest)
    else none
  | _ => none

/-- The directive behind a percent sign, which takes its whole line. -/
def directive? (cs : List Char) : Option (Token × List Char) := do
  let (name, rest) := nameText cs
  if !startsBlank rest then none
  let (token, rest) ←
    match String.ofList name with
    | "YAML" => version? rest
    | "TAG" => tagHandle? rest
    | _ => none
  return (token, ← restOfLine? rest)

end Token

end HeaderForms.Yaml
