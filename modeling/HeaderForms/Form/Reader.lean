-- SUMMARY: Reading forms from text, with the place and the cause of each failure.
import HeaderForms.Text.Blank
import HeaderForms.Form.Datum

/-!
# Reading forms

A text is a sequence of forms between blanks and comments. Each kind of form is told by its first
characters; a tuple or a binary that does not close is given up and its mark read as a symbol. A
text that does not read is reported at the furthest place where a form was sought.

The readers below take the text that is left and answer with what they found and the text behind
it. They carry along `far`, the least number of characters that were left wherever a form was
sought.
-/

namespace HeaderForms

/-! ## Errors -/

/-- A stretch of a text, in bytes of its UTF-8 encoding. -/
structure Span where
  start : Nat
  stop : Nat
deriving DecidableEq, Repr

inductive ReadFault where
  | unexpectedEnd
  | unbalancedClose
  | malformedForm
  | formCount (found : Nat)
deriving DecidableEq, Repr

def ReadFault.message : ReadFault → String
  | .unexpectedEnd => "unexpected end of input"
  | .unbalancedClose => "unbalanced closing delimiter"
  | .malformedForm => "malformed form"
  | .formCount found => s!"expected one form, found {found}"

inductive ReadError where
  | unreadable (fault : ReadFault) (span : Span)
  | invalidLiteral (kind : LiteralKind) (text : String) (span : Span)
deriving DecidableEq, Repr

namespace ReadError

def message : ReadError → String
  | .unreadable fault _ => "syntax error: " ++ fault.message
  | .invalidLiteral kind text _ => "invalid " ++ kind.name ++ " literal '" ++ text ++ "'"

/-- The name under which a tool can look the kind of error up. -/
def code : ReadError → String
  | .unreadable .. => "hdrinc::read::syntax"
  | .invalidLiteral .. => "hdrinc::read::invalid_literal"

def span : ReadError → Span
  | .unreadable _ span => span
  | .invalidLiteral _ _ span => span

end ReadError

namespace Reader

/-! ## Blanks -/

def isSpace (c : Char) : Bool :=
  c = ' ' || c = '\t' || c = '\r' || c = '\n'

def closesBlock : List Char → Bool
  | '|' :: '#' :: _ => true
  | _ :: cs => closesBlock cs
  | [] => false

/-- What stands around a place between two forms. -/
inductive Gap where
  | space
  | lineComment
  | blockComment
deriving DecidableEq

/-- Drops blanks and comments. A block comment that never closes is none. -/
def skipGap : Gap → List Char → List Char
  | .space, '#' :: '|' :: cs =>
    if closesBlock cs then skipGap .blockComment cs else '#' :: '|' :: cs
  | .space, c :: cs =>
    if isSpace c then skipGap .space cs
    else if c = ';' then skipGap .lineComment cs
    else c :: cs
  | .lineComment, c :: cs => skipGap (if c = '\n' then .space else .lineComment) cs
  | .blockComment, '|' :: '#' :: cs => skipGap .space cs
  | .blockComment, _ :: cs => skipGap .blockComment cs
  | _, [] => []

def skipBlanks (cs : List Char) : List Char :=
  skipGap .space cs

/-! ## Atoms -/

/-- The characters besides blanks that end a symbol. -/
def delimiters : List Char :=
  ['(', ')', '[', ']', '"', '\x27', '\x60', ',', ';', '|', '\\']

def isSymbolChar (c : Char) : Bool :=
  !isSpace c && !delimiters.contains c

def isDigits (cs : List Char) : Bool :=
  !cs.isEmpty && cs.all Numeral.isDigit

def unsigned (cs : List Char) : List Char :=
  (Numeral.splitSign cs).2

def isIntegerText (cs : List Char) : Bool :=
  isDigits (unsigned cs)

def isExponent : List Char → Bool
  | c :: cs => (c = 'e' || c = 'E') && isDigits (unsigned cs)
  | [] => false

/-- Digits with a point and digits, an exponent, or both. -/
def isFloatText (cs : List Char) : Bool :=
  let body := unsigned cs
  !(body.takeWhile Numeral.isDigit).isEmpty &&
    match body.dropWhile Numeral.isDigit with
    | '.' :: more =>
      let tail := more.dropWhile Numeral.isDigit
      !(more.takeWhile Numeral.isDigit).isEmpty && (tail.isEmpty || isExponent tail)
    | tail => isExponent tail

/-- A number or a symbol: the longest run of symbol characters, unless it is a lone point. -/
def atom? (cs : List Char) : Option (Datum × List Char) :=
  let run := cs.takeWhile isSymbolChar
  let rest := cs.dropWhile isSymbolChar
  let literal : Literal := ⟨run, rest.length⟩
  if run.isEmpty || run = ['.'] then none
  else if isFloatText run then some (.float literal, rest)
  else if isIntegerText run then some (.integer literal, rest)
  else some (.symbol run, rest)

/-- The text up to an unescaped `close`, escapes kept, and the text behind it. -/
def enclosed? (close : Char) : List Char → Option (List Char × List Char)
  | '\\' :: c :: cs => (enclosed? close cs).map fun (text, rest) => ('\\' :: c :: text, rest)
  | c :: cs =>
    if c = close then some ([], cs)
    else if c = '\\' then none
    else (enclosed? close cs).map fun (text, rest) => (c :: text, rest)
  | [] => none

def unescapeString : List Char → List Char
  | '\\' :: 'n' :: cs => '\n' :: unescapeString cs
  | '\\' :: 't' :: cs => '\t' :: unescapeString cs
  | '\\' :: 'r' :: cs => '\r' :: unescapeString cs
  | '\\' :: c :: cs => c :: unescapeString cs
  | c :: cs => c :: unescapeString cs
  | [] => []

def unescapeSymbol : List Char → List Char
  | '\\' :: c :: cs => c :: unescapeSymbol cs
  | c :: cs => c :: unescapeSymbol cs
  | [] => []

/-! ## Data -/

/-- What was found and the text behind it, if anything was, and the new `far`. -/
abbrev Attempt (α : Type) := Option (α × List Char) × Nat

abbrev Seeker (α : Type) := Nat → List Char → Attempt α

/-- As many items as follow, each after blanks. At most `count` are read. -/
def many (item : Seeker α) : Nat → Nat → List Char → (List α × List Char) × Nat
  | 0, far, cs => (([], cs), far)
  | count + 1, far, cs =>
    match item far (skipBlanks cs) with
    | (none, far) => (([], cs), far)
    | (some (first, rest), far) =>
      let ((others, rest), far) := many item count far rest
      ((first :: others, rest), far)

def expect (close : Char) (found : α) (cs : List Char) : Option (α × List Char) :=
  match skipBlanks cs with
  | c :: rest => if c = close then some (found, rest) else none
  | [] => none

def wrapped (head : String) (item : Seeker Datum) : Seeker Datum := fun far cs =>
  match item far (skipBlanks cs) with
  | (some (inner, rest), far) => (some (.wrapped head inner, rest), far)
  | (none, far) => (none, far)

/-- The items of a list, and its tail behind a point. -/
def listItems (item : Seeker Datum) (close : Char) : Seeker Datum := fun far cs =>
  let ((items, rest), far) := many item (cs.length + 1) far cs
  match skipBlanks rest with
  | '.' :: more =>
    match item far (skipBlanks more) with
    | (some (tail, rest), far) => (expect close (.dotted items tail) rest, far)
    | (none, far) => (none, far)
  | _ => (expect close (.list items) rest, far)

def tupleItems (item : Seeker Datum) : Seeker Datum := fun far cs =>
  let ((items, rest), far) := many item (cs.length + 1) far cs
  (expect ')' (.tuple items) rest, far)

def byteLiteral : Seeker Literal := fun far cs =>
  let run := cs.takeWhile isSymbolChar
  let rest := cs.dropWhile isSymbolChar
  (if isIntegerText run then some (⟨run, rest.length⟩, rest) else none, min far cs.length)

def binaryItems : Seeker Datum := fun far cs =>
  let ((bytes, rest), far) := many byteLiteral (cs.length + 1) far cs
  (expect ')' (.binary bytes) rest, far)

def stringDatum (cs : List Char) : Option (Datum × List Char) :=
  (enclosed? '"' cs).map fun (text, rest) => (.string (unescapeString text), rest)

def barSymbol (cs : List Char) : Option (Datum × List Char) :=
  (enclosed? '|' cs).map fun (text, rest) => (.symbol (unescapeSymbol text), rest)

/-- The first attempt that finds something. -/
def orElse (first : Attempt α) (second : Nat → Attempt α) : Attempt α :=
  match first with
  | (none, far) => second far
  | found => found

/-- Reads one datum that starts at the front of the text and nests at most `depth` levels. -/
def datum : Nat → Seeker Datum
  | 0, far, _ => (none, far)
  | depth + 1, far, cs =>
    let far := min far cs.length
    match cs with
    | '\x27' :: rest => wrapped "quote" (datum depth) far rest
    | '\x60' :: rest => wrapped "backquote" (datum depth) far rest
    | ',' :: '@' :: rest =>
      orElse (wrapped "comma-at" (datum depth) far rest) fun far =>
        wrapped "comma" (datum depth) far ('@' :: rest)
    | ',' :: rest => wrapped "comma" (datum depth) far rest
    | '#' :: '(' :: rest =>
      orElse (tupleItems (datum depth) far rest) fun far => (atom? cs, far)
    | '#' :: 'B' :: '(' :: rest =>
      orElse (binaryItems far rest) fun far => (atom? cs, far)
    | '(' :: rest => listItems (datum depth) ')' far rest
    | '[' :: rest => listItems (datum depth) ']' far rest
    | '"' :: rest => (stringDatum rest, far)
    | '|' :: rest => (barSymbol rest, far)
    | _ => (atom? cs, far)

/-! ## Places -/

def utf8Length : List Char → Nat
  | [] => 0
  | c :: cs => c.utf8Size + utf8Length cs

/-- The byte offset of the place before the last `left` characters. -/
def offset (text : List Char) (left : Nat) : Nat :=
  utf8Length (text.take (text.length - left))

def Literal.span (text : List Char) (literal : Literal) : Span :=
  let stop := offset text literal.after
  ⟨stop - utf8Length literal.text, stop⟩

/-- The line of the place before the last `left` characters. Carriage returns are left out of
it. -/
def lineAround (text : List Char) (left : Nat) : List Char :=
  let before := text.take (text.length - left)
  let behind := text.drop (text.length - left)
  ((before.reverse.takeWhile (· ≠ '\n')).reverse ++ behind.takeWhile (· ≠ '\n')).filter (· ≠ '\r')

def mentions (word : List Char) : List Char → Bool
  | [] => word.isEmpty
  | c :: cs => word.isPrefixOf (c :: cs) || mentions word cs

/-- The cause of a failure with `far` characters left, when reading stopped with `top` characters
left between two forms. A closing delimiter is unbalanced when no form was sought behind it; the
same is said of any place on a line that holds the letters `EOI`. -/
def fault (text : List Char) (far top : Nat) : ReadFault :=
  if far = 0 then .unexpectedEnd
  else if far < text.length && far = top then .unbalancedClose
  else if mentions ['E', 'O', 'I'] (lineAround text far) then .unbalancedClose
  else .malformedForm

/-! ## Texts -/

/-- The data of a whole text. -/
def data (text : List Char) : Except ReadError (List Datum) :=
  let ((data, rest), far) := many (datum (text.length + 1)) (text.length + 1) text.length text
  let rest := skipBlanks rest
  if rest.isEmpty then .ok data
  else
    let place := offset text far
    .error (.unreadable (fault text far rest.length) ⟨place, place⟩)

end Reader

namespace Form

/-- Reads every form of a text. -/
def readAll (text : String) : Except ReadError (List Form) :=
  let cs := text.toList
  if Text.isBlankText cs then .ok []
  else do
    let data ← Reader.data cs
    match Datum.forms data with
    | .ok forms => .ok forms
    | .error (kind, literal) =>
      .error (.invalidLiteral kind (String.ofList literal.text) (Reader.Literal.span cs literal))

/-- Reads a text that holds exactly one form. -/
def readOne (text : String) : Except ReadError Form := do
  match ← readAll text with
  | [form] => .ok form
  | forms => .error (.unreadable (.formCount forms.length) ⟨0, Reader.utf8Length text.toList⟩)

end Form

end HeaderForms
