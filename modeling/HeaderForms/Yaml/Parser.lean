-- SUMMARY: YAML documents from tokens: nodes, their anchors and tags, and the document around them.
import HeaderForms.Yaml.Lexer

/-!
# Documents

A node is an alias, or a scalar or collection with an anchor and a tag before it. Where a node is
expected and none starts, it is nothing. A text holds at most one document, which may be marked at
its start and, behind directives, must be.
-/

namespace HeaderForms.Yaml

/-! ## Anchors -/

/-- The nodes that aliases may stand for. An anchor gets the number of names known before it, and a
name is known by the number of its last anchor. -/
structure Anchors where
  numbers : List (String × Nat)
  /-- The anchored nodes under their numbers; one that is still being read is not there yet. -/
  nodes : List (Nat × Option Yaml)

namespace Anchors

def empty : Anchors :=
  ⟨[], []⟩

/-- Starts the node of an anchor. -/
def opened (anchors : Anchors) (name : String) : Anchors :=
  let number := anchors.numbers.length
  ⟨(name, number) :: anchors.numbers.filter (·.1 ≠ name), anchors.nodes ++ [(number, none)]⟩

/-- Ends the node that was started as the one with this index. -/
def closed (anchors : Anchors) (index : Nat) (node : Yaml) : Anchors :=
  { anchors with nodes := anchors.nodes.modify index fun (number, _) => (number, some node) }

/-- The last node that was started under the number of a name. -/
def get? (anchors : Anchors) (name : String) : Option Yaml := do
  let number ← anchors.numbers.lookup name
  (anchors.nodes.reverse.lookup number).join

end Anchors

/-! ## Nodes -/

/-- What is left of a document, and what its nodes may refer to. -/
structure Reading where
  tokens : List Token
  handles : List (String × String)
  anchors : Anchors

namespace Reading

def behind (reading : Reading) (tokens : List Token) : Reading :=
  { reading with tokens }

end Reading

/-- Where a node stands: an entry of a mapping in block context may hold a sequence in the column of
its key. -/
inductive NodeContext where
  | flow
  | block
  | blockEntry
deriving DecidableEq, Repr

abbrev NodeParser := Reading → Option (Yaml × Reading)

def NodeContext.starts (context : NodeContext) : Token → Bool
  | .alias _ | .anchor _ | .tag .. | .scalar .. | .flowSequence | .flowMapping => true
  | .blockSequence | .blockMapping => context ≠ .flow
  | .entry => context = .blockEntry
  | _ => false

/-- A node, or nothing where none starts. -/
def nodeOrNothing? (node : NodeContext → NodeParser) (context : NodeContext) : NodeParser :=
  fun reading =>
    if reading.tokens.head?.any context.starts then node context reading
    else some (nothing, reading)

/-- The value behind the mark of values, or nothing without that mark. -/
def value? (node : NodeContext → NodeParser) (context : NodeContext) : NodeParser := fun reading =>
  match reading.tokens with
  | .value :: rest => nodeOrNothing? node context (reading.behind rest)
  | _ => some (nothing, reading)

/-- A key and its value, behind the mark of keys. -/
def keyValue? (node : NodeContext → NodeParser) (context : NodeContext) (reading : Reading) :
    Option ((Yaml × Yaml) × Reading) := do
  let (key, reading) ← nodeOrNothing? node context reading
  let (value, reading) ← value? node context reading
  return ((key, value), reading)

/-! ## Block collections -/

/-- The items behind dashes. -/
def dashItems? (node : NodeContext → NodeParser) : Nat → Reading → Option (List Yaml × Reading)
  | 0, _ => none
  | count + 1, reading =>
    match reading.tokens with
    | .entry :: rest => do
      let (item, reading) ← nodeOrNothing? node .block (reading.behind rest)
      let (items, last) ← dashItems? node count reading
      return (item :: items, last)
    | _ => some ([], reading)

def blockEntries? (node : NodeContext → NodeParser) :
    Nat → Reading → Option (List (Yaml × Yaml) × Reading)
  | 0, _ => none
  | count + 1, reading =>
    match reading.tokens with
    | .key :: rest => do
      let (entry, reading) ← keyValue? node .blockEntry (reading.behind rest)
      let (entries, last) ← blockEntries? node count reading
      return (entry :: entries, last)
    | _ => some ([], reading)

/-- What comes before the end of a block collection. -/
def beforeEnd? (found : Option (Yaml × Reading)) : Option (Yaml × Reading) := do
  let (yaml, reading) ← found
  match reading.tokens with
  | .blockEnd :: rest => return (yaml, reading.behind rest)
  | _ => none

/-! ## Flow collections -/

/-- The items before the token `last`, with a comma behind each, save perhaps the last one. -/
def flowItems? {α : Type} (item : Reading → Option (α × Reading)) (last : Token) :
    Nat → Reading → Option (List α × Reading)
  | 0, _ => none
  | count + 1, reading =>
    if reading.tokens.head? = some last then some ([], reading.behind (reading.tokens.drop 1))
    else do
      let (first, reading) ← item reading
      match reading.tokens with
      | .comma :: rest =>
        let (items, behind) ← flowItems? item last count (reading.behind rest)
        return (first :: items, behind)
      | token :: rest => if token = last then return ([first], reading.behind rest) else none
      | [] => none

/-- An item of a flow sequence. A key makes it a mapping of one entry. -/
def flowItem? (node : NodeContext → NodeParser) : NodeParser := fun reading =>
  match reading.tokens with
  | .key :: rest =>
    (keyValue? node .flow (reading.behind rest)).map fun (entry, last) => (.mapping [entry], last)
  | _ => node .flow reading

/-- An entry of a flow mapping. What is no key has nothing as its value. -/
def flowKeyValue? (node : NodeContext → NodeParser) (reading : Reading) :
    Option ((Yaml × Yaml) × Reading) :=
  match reading.tokens with
  | .key :: rest => keyValue? node .flow (reading.behind rest)
  | _ => (node .flow reading).map fun (key, last) => ((key, nothing), last)

/-! ## Anchors and tags before nodes -/

structure Properties where
  anchor : Option String
  tag : Option (String × String)

namespace Properties

/-- The anchor and the tag at the start of tokens, in either order. -/
def ofTokens : List Token → Properties × List Token
  | .anchor name :: .tag handle suffix :: rest => (⟨some name, some (handle, suffix)⟩, rest)
  | .tag handle suffix :: .anchor name :: rest => (⟨some name, some (handle, suffix)⟩, rest)
  | .anchor name :: rest => (⟨some name, none⟩, rest)
  | .tag handle suffix :: rest => (⟨none, some (handle, suffix)⟩, rest)
  | tokens => (⟨none, none⟩, tokens)

def isEmpty (properties : Properties) : Bool :=
  properties.anchor.isNone && properties.tag.isNone

/-- The tag with what its handle stands for. A handle that stands for nothing is refused. -/
def tagText? (properties : Properties) (handles : List (String × String)) :
    Option (Option String) :=
  match properties.tag with
  | none => some none
  | some (handle, suffix) =>
    if handle.isEmpty then some (some suffix)
    else (handles.lookup handle).map fun text => some (text ++ suffix)

end Properties

/-- A node behind its anchor and tag. -/
def content? (node : NodeContext → NodeParser) (context : NodeContext) (tag : Option String)
    (mayBeNothing : Bool) : NodeParser := fun reading =>
  let count := reading.tokens.length + 1
  let rest := reading.behind (reading.tokens.drop 1)
  match reading.tokens.head? with
  | some (.scalar style text) => some (.scalar style (tag.filter (· ≠ "!")) text, rest)
  | some .flowSequence =>
    (flowItems? (flowItem? node) .flowSequenceEnd count rest).map fun (items, last) =>
      (.sequence items, last)
  | some .flowMapping =>
    (flowItems? (flowKeyValue? node) .flowMappingEnd count rest).map fun (entries, last) =>
      (.mapping entries, last)
  | some .blockSequence =>
    beforeEnd? ((dashItems? node count rest).map fun (items, last) => (.sequence items, last))
  | some .blockMapping =>
    beforeEnd? ((blockEntries? node count rest).map fun (entries, last) => (.mapping entries, last))
  | next =>
    if context = .blockEntry && next = some .entry then
      (dashItems? node count reading).map fun (items, last) => (.sequence items, last)
    else if mayBeNothing then some (.scalar .plain tag "", reading)
    else none

/-- A node, nested at most `depth` deep. -/
def node? : Nat → NodeContext → NodeParser
  | 0, _, _ => none
  | depth + 1, context, reading =>
    match reading.tokens with
    | .alias name :: rest => (reading.anchors.get? name).map (·, reading.behind rest)
    | tokens => do
      let (properties, rest) := Properties.ofTokens tokens
      let tag ← properties.tagText? reading.handles
      let content := content? (node? depth) context tag (!properties.isEmpty)
      let reading := reading.behind rest
      match properties.anchor with
      | none => content reading
      | some name =>
        let index := reading.anchors.nodes.length
        let (yaml, last) ← content { reading with anchors := reading.anchors.opened name }
        return (yaml, { last with anchors := last.anchors.closed index yaml })

/-! ## Documents -/

def isVersion : Token → Bool
  | .version .. => true
  | _ => false

def isDirective : Token → Bool
  | .version .. | .tagHandle .. => true
  | _ => false

def isReadVersion : Token → Bool
  | .version major minor => major = 1 && (minor = 1 || minor = 2)
  | _ => true

def handleOf? : Token → Option (String × String)
  | .tagHandle name text => some (name, text)
  | _ => none

def standardHandles : List (String × String) :=
  [("!", "!"), ("!!", "tag:yaml.org,2002:")]

/-- What the handles of a document stand for. A version or a handle that is told twice is refused,
and so is a version that is not read. -/
def handles? (directives : List Token) : Option (List (String × String)) :=
  let handles := directives.filterMap handleOf?
  if (directives.filter isVersion).length ≤ 1 && directives.all isReadVersion
      && (handles.map (·.1)).Nodup then
    some (handles ++ standardHandles)
  else none

/-- Whether the content of a document starts with a token. -/
def startsContent (token : Token) : Bool :=
  !(isDirective token || token = .documentStart || token = .documentEnd)

/-- The node of a document whose start is marked. -/
def marked? (reading : Reading) : Option (Yaml × Reading) :=
  match reading.tokens with
  | .documentStart :: rest =>
    if rest.head?.any startsContent then node? (rest.length + 1) .block (reading.behind rest)
    else some (nothing, reading.behind rest)
  | _ => none

/-- The node of the first document. -/
def document? (tokens : List Token) : Option (Yaml × Reading) := do
  let directives := tokens.takeWhile isDirective
  let rest := tokens.dropWhile isDirective
  let reading := ⟨rest, ← handles? directives, Anchors.empty⟩
  if !directives.isEmpty || rest.head? = some .documentStart then marked? reading
  else if rest.isEmpty then return (nothing, reading)
  else node? (rest.length + 1) .block reading

/-- Reads a text that holds one document. A text without content holds nothing. -/
def parse? (text : String) : Option Yaml := do
  let (yaml, last) ← document? (← Token.ofText? text)
  if last.tokens.all (· = .documentEnd) then return yaml else none

end HeaderForms.Yaml
