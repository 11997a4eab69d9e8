-- SUMMARY: The tokens of YAML text: open block collections, and keys told by the colon behind them.
import HeaderForms.Yaml.Token

/-!
# The lexer

A block collection starts where a dash or a key stands further right than the innermost one that is
open, and it ends before the first token that stands further left. In a flow collection columns do
not count.

Whether something is a key is known only at the colon behind it. So where a key may start, the place
and the number of tokens before it are kept as a candidate, and the colon puts the mark of the key
before the tokens that have been read since. A candidate is given up on the next line or after 1024
characters; but what stands in the column of a block collection must be a key if it is no dash.
-/

namespace HeaderForms.Yaml

/-- A place where a key may have started. -/
structure Candidate where
  /-- The number of tokens before it. -/
  position : Nat
  line : Nat
  column : Nat
  /-- Whether nothing but a key can stand there. -/
  required : Bool
deriving Repr

namespace Candidate

def reach : Nat := 1024

/-- Whether a key that started there would go on beyond what a key may. -/
def isStale (candidate : Candidate) (place : Place) : Bool :=
  candidate.line < place.line || candidate.column + reach < place.column

/-- Gives a candidate up, unless nothing but a key can stand there. -/
def giveUp? : Option Candidate → Option (Option Candidate)
  | some candidate => if candidate.required then none else some none
  | none => some none

def giveUpStale? (place : Place) (candidate : Option Candidate) : Option (Option Candidate) :=
  if candidate.any (·.isStale place) then giveUp? candidate else some candidate

end Candidate

structure Lexer where
  place : Place
  /-- The columns of the open block collections, innermost first. -/
  blocks : List Nat
  /-- Whether a key may start at the place. -/
  keyAllowed : Bool
  /-- The candidate of the innermost flow collection, or of the block context. -/
  candidate : Option Candidate
  /-- The candidates around the open flow collections. -/
  outer : List (Option Candidate)
  /-- The tokens so far, in reverse. -/
  tokens : List Token

namespace Lexer

def start (text : List Char) : Lexer :=
  ⟨Place.start text, [], true, none, [], []⟩

def inFlow (lexer : Lexer) : Bool :=
  !lexer.outer.isEmpty

/-- The first column inside the innermost block collection. -/
def least (lexer : Lexer) : Nat :=
  (lexer.blocks.head?.map (· + 1)).getD 0

def emit (lexer : Lexer) (token : Token) : Lexer :=
  { lexer with tokens := token :: lexer.tokens }

/-- Puts tokens behind the first `position` ones. -/
def insert (lexer : Lexer) (position : Nat) (new : List Token) : Lexer :=
  let behind := lexer.tokens.length - position
  { lexer with
    tokens := lexer.tokens.take behind ++ new.reverse ++ lexer.tokens.drop behind }

/-! ## Block collections -/

def closeBlocks (lexer : Lexer) (isClosed : Nat → Bool) : Lexer :=
  let closed := lexer.blocks.takeWhile isClosed
  { lexer with
    blocks := lexer.blocks.drop closed.length
    tokens := closed.map (fun _ => .blockEnd) ++ lexer.tokens }

/-- Closes the block collections that stand further right than the place. -/
def closeDeeper (lexer : Lexer) : Lexer :=
  if lexer.inFlow then lexer else lexer.closeBlocks (lexer.place.column < ·)

def closeAll (lexer : Lexer) : Lexer :=
  if lexer.inFlow then lexer else lexer.closeBlocks fun _ => true

def opensBlock (lexer : Lexer) (column : Nat) : Bool :=
  !lexer.inFlow && lexer.blocks.head?.all (· < column)

/-- Opens a block collection behind the first `position` tokens, if `column` is further right than
the innermost one. -/
def openBlock (lexer : Lexer) (column position : Nat) (token : Token) : Lexer :=
  if lexer.opensBlock column then
    { lexer.insert position [token] with blocks := column :: lexer.blocks }
  else lexer

def openBlockHere (lexer : Lexer) (token : Token) : Lexer :=
  lexer.openBlock lexer.place.column lexer.tokens.length token

/-! ## Candidates -/

def giveUp? (lexer : Lexer) : Option Lexer :=
  (Candidate.giveUp? lexer.candidate).map ({ lexer with candidate := · })

def giveUpStale? (lexer : Lexer) : Option Lexer := do
  let candidate ← Candidate.giveUpStale? lexer.place lexer.candidate
  let outer ← lexer.outer.mapM (Candidate.giveUpStale? lexer.place)
  return { lexer with candidate, outer }

/-- Keeps the place as a candidate, if a key may start there. -/
def propose? (lexer : Lexer) : Option Lexer := do
  if lexer.keyAllowed then
    let lexer ← lexer.giveUp?
    let place := lexer.place
    let required := !lexer.inFlow && lexer.blocks.head? = some place.column
    return { lexer with
      candidate := some ⟨lexer.tokens.length, place.line, place.column, required⟩ }
  else return lexer

/-! ## Gaps -/

/-- The next token's place, and whether a key may start there. A tab is no blank where a key may
start in block context; on a new line in block context one may start. -/
def gapFrom (inFlow : Bool) : Bool → Bool → Nat → Nat → List Char → Bool × Place
  | keyAllowed, _, line, column, [] => (keyAllowed, ⟨line, column, []⟩)
  | keyAllowed, inComment, line, column, c :: cs =>
    if isBreak c then gapFrom inFlow (keyAllowed || !inFlow) false (line + 1) 0 cs
    else if inComment || c = '#' || c = ' ' || (c = '\t' && (inFlow || !keyAllowed))
        || (c = byteOrderMark && column = 0) then
      gapFrom inFlow keyAllowed (inComment || c = '#') line (column + 1) cs
    else (keyAllowed, ⟨line, column, c :: cs⟩)

def skipGap (lexer : Lexer) : Lexer :=
  let place := lexer.place
  let (keyAllowed, place) :=
    gapFrom lexer.inFlow lexer.keyAllowed false place.line place.column place.rest
  { lexer with keyAllowed, place }

/-! ## Tokens -/

/-- The lexer behind a token of one character. -/
def taking (lexer : Lexer) (token : Token) (keyAllowed : Bool) : Lexer :=
  { lexer.emit token with place := lexer.place.next, keyAllowed }

/-- The lexer behind a token, at the start of the text `rest`. -/
def through (lexer : Lexer) (token : Token) (rest : List Char) : Lexer :=
  { lexer.emit token with place := lexer.place.upTo rest, keyAllowed := false }

def directive? (lexer : Lexer) : Option Lexer := do
  let lexer ← lexer.closeAll.giveUp?
  let (token, rest) ← Token.directive? (lexer.place.rest.drop 1)
  let lexer := lexer.through token rest
  return { lexer with place := lexer.place.next }

def documentMark? (lexer : Lexer) (token : Token) : Option Lexer := do
  let lexer ← lexer.closeAll.giveUp?
  return lexer.through token (lexer.place.rest.drop 3)

def openFlow? (lexer : Lexer) (token : Token) : Option Lexer := do
  let lexer ← lexer.propose?
  return { lexer.taking token true with
    candidate := none
    outer := lexer.candidate :: lexer.outer }

def closeFlow? (lexer : Lexer) (token : Token) : Option Lexer := do
  let lexer ← lexer.giveUp?
  return { lexer.taking token false with
    candidate := lexer.outer.head?.getD none
    outer := lexer.outer.tail }

def comma? (lexer : Lexer) : Option Lexer := do
  return (← lexer.giveUp?).taking .comma true

/-- A dash. In a flow collection its token is one that no node starts with. -/
def dash? (lexer : Lexer) : Option Lexer := do
  if !lexer.inFlow && !lexer.keyAllowed then none
  return (← (lexer.openBlockHere .blockSequence).giveUp?).taking .entry true

/-- A question mark, which makes anything a key. -/
def key? (lexer : Lexer) : Option Lexer := do
  if !lexer.inFlow && !lexer.keyAllowed then none
  return (← (lexer.openBlockHere .blockMapping).giveUp?).taking .key (!lexer.inFlow)

/-- A colon. The candidate before it is a key; without one, it belongs to a key that a question
mark made. -/
def value? (lexer : Lexer) : Option Lexer :=
  match lexer.candidate with
  | some candidate =>
    let lexer := lexer.insert candidate.position [.key]
    let lexer := lexer.openBlock candidate.column candidate.position .blockMapping
    some ({ lexer with candidate := none }.taking .value false)
  | none =>
    if !lexer.inFlow && !lexer.keyAllowed then none
    else some ((lexer.openBlockHere .blockMapping).taking .value (!lexer.inFlow))

def named? (lexer : Lexer) (token : String → Token) : Option Lexer := do
  let lexer ← lexer.propose?
  let (name, rest) ← Token.name? (lexer.place.rest.drop 1)
  return lexer.through (token name) rest

def tag? (lexer : Lexer) : Option Lexer := do
  let lexer ← lexer.propose?
  let (token, rest) ← Token.tag? lexer.inFlow (lexer.place.rest.drop 1)
  return lexer.through token rest

/-- The lexer behind a scalar that ends at `place`. -/
def scalar (lexer : Lexer) (style : ScalarStyle) (text : List Char) (place : Place)
    (keyAllowed : Bool) : Lexer :=
  { lexer.emit (.scalar style (String.ofList text)) with place, keyAllowed }

def block? (lexer : Lexer) (style : ScalarStyle) : Option Lexer := do
  let lexer ← lexer.giveUp?
  let (text, place) ← Yaml.block? (style = .literal) lexer.least lexer.place
  return lexer.scalar style text place true

def quoted? (lexer : Lexer) (quote : Char) : Option Lexer := do
  let lexer ← lexer.propose?
  let (text, place) ← Yaml.quoted? quote lexer.place
  return lexer.scalar .quoted text place false

def plain? (lexer : Lexer) : Option Lexer := do
  let lexer ← lexer.propose?
  let (text, last) ← Yaml.plain? lexer.inFlow lexer.least lexer.place
  return lexer.scalar .plain text last.place last.onNewLine

/-- The lexer behind the token that starts with `c`. -/
def token? (lexer : Lexer) (c : Char) (behind : List Char) : Option Lexer :=
  let isAlone := startsBlank behind
  if c = '%' && lexer.place.column = 0 then lexer.directive?
  else if lexer.place.atMark '-' then lexer.documentMark? .documentStart
  else if lexer.place.atMark '.' then lexer.documentMark? .documentEnd
  else if c = '[' then lexer.openFlow? .flowSequence
  else if c = '\x7b' then lexer.openFlow? .flowMapping
  else if c = ']' then lexer.closeFlow? .flowSequenceEnd
  else if c = '\x7d' then lexer.closeFlow? .flowMappingEnd
  else if c = ',' then lexer.comma?
  else if c = '-' && isAlone then lexer.dash?
  else if c = '?' && (lexer.inFlow || isAlone) then lexer.key?
  else if c = ':' && (lexer.inFlow || isAlone) then lexer.value?
  else if c = '*' then lexer.named? .alias
  else if c = '&' then lexer.named? .anchor
  else if c = '!' then lexer.tag?
  else if c = '|' && !lexer.inFlow then lexer.block? .literal
  else if c = '>' && !lexer.inFlow then lexer.block? .folded
  else if c = '\x27' || c = '"' then lexer.quoted? c
  else if startsPlain lexer.inFlow c behind then lexer.plain?
  else none

/-- Reads the tokens up to the end. Every token takes a character, so the length of the text bounds
their number. -/
def run? : Nat → Lexer → Option (List Token)
  | 0, _ => none
  | steps + 1, lexer => do
    let lexer := (← lexer.skipGap.giveUpStale?).closeDeeper
    match lexer.place.rest with
    | [] => return (← lexer.closeAll.giveUp?).tokens.reverse
    | c :: behind => run? steps (← lexer.token? c behind)

end Lexer

/-- The tokens of a text. -/
def Token.ofText? (text : String) : Option (List Token) :=
  let cs := text.toList
  if cs.all isAllowed then (Lexer.start (uniform cs)).run? (cs.length + 1) else none

end HeaderForms.Yaml
