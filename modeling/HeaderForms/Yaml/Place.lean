-- SUMMARY: YAML text: its characters, its line breaks, and the places in it.

/-!
# Places in YAML text

YAML is read by lines and columns, so what is left of a text always comes with the line and the
column where it starts. Line ends are made uniform before anything else: a newline stands for every
line end save the line separator and the paragraph separator, which are breaks of their own.
-/

namespace HeaderForms.Yaml

/-! ## Characters -/

def byteOrderMark : Char := '\ufeff'

/-- Whether YAML text may hold a character. -/
def isAllowed (c : Char) : Bool :=
  let code := c.toNat
  c = '\t' || c = '\n' || c = '\r' || code = 0x85
    || (0x20 ≤ code && code ≤ 0x7e) || (0xa0 ≤ code && code ≠ 0xfffe && code ≠ 0xffff)

def isBlank (c : Char) : Bool :=
  c = ' ' || c = '\t'

def isBreak (c : Char) : Bool :=
  c = '\n' || c = '\u2028' || c = '\u2029'

def isSpace (c : Char) : Bool :=
  isBlank c || isBreak c

/-- Whether no word goes on here. -/
def startsBlank (cs : List Char) : Bool :=
  cs.head?.all isSpace

/-- The same text with a newline for every line end. -/
def uniform : List Char → List Char
  | '\r' :: '\n' :: cs => '\n' :: uniform cs
  | c :: cs => (if c = '\r' || c = '\u0085' then '\n' else c) :: uniform cs
  | [] => []

/-! ## Places -/

structure Place where
  line : Nat
  column : Nat
  rest : List Char

namespace Place

def start (text : List Char) : Place :=
  ⟨0, 0, text⟩

/-- The place behind the next character. -/
def next (place : Place) : Place :=
  match place.rest with
  | [] => place
  | c :: cs => if isBreak c then ⟨place.line + 1, 0, cs⟩ else ⟨place.line, place.column + 1, cs⟩

/-- The place behind the next `count` characters. -/
def skip (place : Place) : Nat → Place
  | 0 => place
  | count + 1 => place.next.skip count

/-- The place where only `rest` is left, which is an end of what is left here. -/
def upTo (place : Place) (rest : List Char) : Place :=
  place.skip (place.rest.length - rest.length)

/-- Whether a line starts here with three times `mark` and no more word. -/
def atMark (place : Place) (mark : Char) : Bool :=
  place.column = 0 && [mark, mark, mark].isPrefixOf place.rest && startsBlank (place.rest.drop 3)

/-- Whether a document starts or ends here. -/
def atDocumentMark (place : Place) : Bool :=
  place.atMark '-' || place.atMark '.'

end Place

end HeaderForms.Yaml
