-- SUMMARY: YAML scalars: quoted, plain, and as blocks of lines.
import HeaderForms.Numeral
import HeaderForms.Yaml.Place

/-!
# Scalars

A quoted or plain scalar may run over several lines. Its line breaks are folded: one newline, with
the blanks around it, is a space, and of several newlines the first is left out. A block scalar
holds whole lines, which are indented alike; it is literal or folded.

The readers answer with the text of a scalar and the place behind it.
-/

namespace HeaderForms.Yaml

/-- What a run of blanks and line breaks between two words of a scalar stands for. -/
def foldedRun (run : List Char) : List Char :=
  match run.filter isBreak with
  | [] => run
  | ['\n'] => [' ']
  | '\n' :: breaks => breaks
  | breaks => breaks

/-- The run of blanks and line breaks at the start of a text. -/
def leadingRun (cs : List Char) : List Char :=
  cs.takeWhile isSpace

/-! ## Quoted scalars -/

def letterEscape? (c : Char) : Option Char :=
  match c with
  | '0' => some '\x00'
  | 'a' => some '\x07'
  | 'b' => some '\x08'
  | 't' => some '\t'
  | '\t' => some '\t'
  | 'n' => some '\n'
  | 'v' => some '\x0b'
  | 'f' => some '\x0c'
  | 'r' => some '\r'
  | 'e' => some '\x1b'
  | ' ' => some ' '
  | '"' => some '"'
  | '/' => some '/'
  | '\\' => some '\\'
  | 'N' => some '\u0085'
  | '_' => some '\u00a0'
  | 'L' => some '\u2028'
  | 'P' => some '\u2029'
  | _ => none

/-- How many hexadecimal digits follow an escape letter. -/
def codeLength (c : Char) : Nat :=
  if c = 'x' then 2 else if c = 'u' then 4 else if c = 'U' then 8 else 0

def codeChar? (digits : List Char) : Option Char := do
  let code ← Numeral.natural? 16 digits
  if code.isValidChar then some (Char.ofNat code) else none

/-- The character that an escape stands for, and how many characters follow its backslash. -/
def escape? : List Char → Option (Char × Nat)
  | [] => none
  | c :: cs =>
    let length := codeLength c
    if length = 0 then (letterEscape? c).map (·, 1)
    else if cs.length < length then none
    else (codeChar? (cs.take length)).map (·, length + 1)

/-- The text up to the closing quote. In single quotes a quote is written twice; in double quotes a
backslash starts an escape, and one at the end of a line joins the lines. Every step takes a
character, so the length of the text bounds the steps. -/
def quotedFrom (quote : Char) : Nat → Place → Option (List Char × Place)
  | 0, _ => none
  | steps + 1, place =>
    if place.atDocumentMark then none
    else
      match place.rest with
      | [] => none
      | c :: cs =>
        if isSpace c then do
          let run := leadingRun place.rest
          let (text, last) ← quotedFrom quote steps (place.skip run.length)
          return (foldedRun run ++ text, last)
        else if c = '\\' && quote = '"' then
          if cs.head?.any isBreak then do
            let run := leadingRun (cs.drop 1)
            let (text, last) ← quotedFrom quote steps (place.skip (run.length + 2))
            return (run.filter isBreak ++ text, last)
          else do
            let (value, length) ← escape? cs
            let (text, last) ← quotedFrom quote steps (place.skip (length + 1))
            return (value :: text, last)
        else if c = quote then
          if quote = '\x27' && cs.head? = some quote then do
            let (text, last) ← quotedFrom quote steps (place.skip 2)
            return (quote :: text, last)
          else some ([], place.next)
        else do
          let (text, last) ← quotedFrom quote steps place.next
          return (c :: text, last)

/-- The scalar between quotes, from its opening quote. -/
def quoted? (quote : Char) (place : Place) : Option (List Char × Place) :=
  quotedFrom quote place.rest.length place.next

/-! ## Plain scalars -/

def isFlowMark (c : Char) : Bool :=
  [',', '[', ']', '\x7b', '\x7d'].contains c

/-- Whether a plain scalar can start with a character, given the text behind it. -/
def startsPlain (inFlow : Bool) (c : Char) (behind : List Char) : Bool :=
  if c = '-' then !behind.head?.any isBlank
  else if c = '?' || c = ':' then !inFlow && !startsBlank behind
  else !(isSpace c || isFlowMark c
    || ['#', '&', '*', '!', '|', '>', '\x27', '"', '%', '@', '\x60'].contains c)

/-- The word at the start of a text. It ends before a colon with nothing behind it and, in a flow
collection, before a mark of it; a colon directly before such a mark is refused. -/
def plainWord? (inFlow : Bool) : List Char → Option (List Char)
  | [] => some []
  | c :: cs =>
    if inFlow && c = ':' && cs.head?.any (fun d => isFlowMark d || d = '?') then none
    else if isSpace c || (c = ':' && startsBlank cs) || (inFlow && isFlowMark c) then some []
    else (plainWord? inFlow cs).map (c :: ·)

/-- Whether a line of a run, behind its first break, has a tab before column `least`. -/
def hasTabBefore (least : Nat) (run : List Char) : Bool :=
  (run.splitOnP isBreak).tail.any fun line => (line.take least).contains '\t'

/-- The end of a plain scalar: where the text goes on, and whether on a line of its own. -/
structure PlainEnd where
  place : Place
  onNewLine : Bool

/-- The words of a plain scalar, joined. In block context every line stands in column `least` or
behind it. -/
def plainFrom (inFlow : Bool) (least : Nat) : Nat → Place → Option (List Char × PlainEnd)
  | 0, _ => none
  | words + 1, place => do
    let word ← plainWord? inFlow place.rest
    let behind := place.skip word.length
    let run := leadingRun behind.rest
    if hasTabBefore least run then none
    let next := behind.skip run.length
    let ended := (word, ⟨next, run.any isBreak⟩)
    if run.isEmpty || (!inFlow && next.column < least) || next.atDocumentMark
        || next.rest.head? = some '#' then return ended
    if (← plainWord? inFlow next.rest).isEmpty then return ended
    let (text, last) ← plainFrom inFlow least words next
    return (word ++ foldedRun run ++ text, last)

def plain? (inFlow : Bool) (least : Nat) (place : Place) : Option (List Char × PlainEnd) :=
  plainFrom inFlow least (place.rest.length + 1) place

/-! ## Block scalars -/

/-- What becomes of the line breaks at the end of a block scalar. -/
inductive Chomping where
  | strip
  | clip
  | keep
deriving DecidableEq, Repr

/-- The line behind the mark of a block scalar: chomping and indentation, in either order. -/
structure BlockHeader where
  chomping : Chomping
  /-- How much further than its parent the block is indented, if this is told. -/
  indentation : Option Nat

namespace BlockHeader

def chomping? : List Char → Option (Chomping × List Char)
  | '+' :: cs => some (.keep, cs)
  | '-' :: cs => some (.strip, cs)
  | _ => none

/-- The digit of the indentation, if there is one. A zero is refused. -/
def indentation? : List Char → Option (Option Nat × List Char)
  | c :: cs =>
    if c = '0' then none
    else if c.isDigit then some (some (c.toNat - '0'.toNat), cs)
    else some (none, c :: cs)
  | [] => some (none, [])

def ofText? (cs : List Char) : Option (BlockHeader × List Char) :=
  match chomping? cs with
  | some (chomping, cs) => (indentation? cs).map fun (indentation, cs) =>
      (⟨chomping, indentation⟩, cs)
  | none => do
    let (indentation, cs) ← indentation? cs
    match indentation, chomping? cs with
    | some _, some (chomping, cs) => return (⟨chomping, indentation⟩, cs)
    | _, _ => return (⟨.clip, indentation⟩, cs)

end BlockHeader

/-- The text behind blanks and a comment, which must be all that is left of a line. -/
def restOfLine? (cs : List Char) : Option (List Char) :=
  let cs := cs.dropWhile isBlank
  let cs := if cs.head? = some '#' then cs.dropWhile (!isBreak ·) else cs
  if cs.head?.all isBreak then some cs else none

/-- The breaks of the empty lines here, the last column that their spaces reach, and the place of
the next line, behind its indentation. An indentation of zero is yet to be found. -/
def emptyLines? (indentation : Nat) : Nat → Nat → Place → Option (List Char × Nat × Place)
  | 0, _, _ => none
  | steps + 1, reached, place =>
    let spaces := (place.rest.takeWhile (· = ' ')).length
    let place :=
      place.skip (if indentation = 0 then spaces else min spaces (indentation - place.column))
    let reached := max reached place.column
    match place.rest with
    | [] => some ([], reached, place)
    | c :: _ =>
      if c = '\t' && (indentation = 0 || place.column < indentation) then none
      else if isBreak c then
        (emptyLines? indentation steps reached place.next).map fun (breaks, found) =>
          (c :: breaks, found)
      else some ([], reached, place)

/-- The lines of a block scalar, joined, and the breaks behind its last line. -/
structure BlockLines where
  text : List Char
  lastBreak : List Char
  breaks : List Char
  place : Place

/-- Reads lines from `place`. `lastBreak` is the break behind the line before it, which was more
indented if `wasBlank`, and `breaks` are those of the empty lines between them. A break between two
lines that start with words is folded. -/
def blockLines? (literal : Bool) (indentation : Nat) :
    Nat → List Char → Bool → List Char → Place → Option BlockLines
  | 0, _, _, _, _ => none
  | steps + 1, lastBreak, wasBlank, breaks, place =>
    if place.rest.isEmpty || place.column ≠ indentation then
      some ⟨[], lastBreak, breaks, place⟩
    else do
      let line := place.rest.takeWhile (!isBreak ·)
      let isBlank := line.head?.any isBlank
      let isFolded := !literal && lastBreak = ['\n'] && !wasBlank && !isBlank
      let joint := if !isFolded then lastBreak else if breaks.isEmpty then [' '] else []
      let behind := place.skip line.length
      let (nextBreaks, _, next) ←
        emptyLines? indentation (behind.rest.length + 1) 0 behind.next
      let lines ← blockLines? literal indentation steps (behind.rest.take 1) isBlank nextBreaks next
      return { lines with text := joint ++ breaks ++ line ++ lines.text }

/-- The block scalar from the place of its mark. Its lines stand in column `least` or behind it. -/
def block? (literal : Bool) (least : Nat) (place : Place) : Option (List Char × Place) := do
  let (header, rest) ← BlockHeader.ofText? (place.rest.drop 1)
  let lineEnd := place.upTo (← restOfLine? rest)
  let told := (header.indentation.map (least - 1 + ·)).getD 0
  let (breaks, reached, first) ← emptyLines? told (lineEnd.rest.length + 1) 0 lineEnd.next
  let indentation := if told = 0 then max reached (max least 1) else told
  let lines ← blockLines? literal indentation (first.rest.length + 1) [] false breaks first
  let tail :=
    match header.chomping with
    | .strip => []
    | .clip => lines.lastBreak
    | .keep => lines.lastBreak ++ lines.breaks
  return (lines.text ++ tail, lines.place)

end HeaderForms.Yaml
