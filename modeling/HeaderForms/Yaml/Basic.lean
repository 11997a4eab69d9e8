-- SUMMARY: YAML documents: scalars, sequences and mappings.

/-!
# YAML documents

A document is a scalar, a sequence or a mapping. A scalar is its text, with the style it was written
in and its tag, since these decide whether it is a truth value or nothing at all. Anchors and
aliases leave no trace: an alias is the node it stands for.
-/

namespace HeaderForms

inductive ScalarStyle where
  | plain
  | quoted
  | literal
  | folded
deriving DecidableEq, Repr

inductive Yaml where
  | scalar (style : ScalarStyle) (tag : Option String) (text : String)
  | sequence (items : List Yaml)
  | mapping (entries : List (Yaml × Yaml))

namespace Yaml

/-- The node where none is written. -/
def nothing : Yaml :=
  .scalar .plain none ""

def isNothing : Yaml → Bool
  | .scalar .plain _ text => text.isEmpty
  | _ => false

/-- Any scalar is a text. -/
def text? : Yaml → Option String
  | .scalar _ _ text => some text
  | _ => none

def boolTag : String :=
  "tag:yaml.org,2002:bool"

def boolOfText? (text : String) : Option Bool :=
  if ["true", "True", "TRUE"].contains text then some true
  else if ["false", "False", "FALSE"].contains text then some false
  else none

/-- A truth value is written plainly, or as a literal block with the tag of truth values. -/
def bool? : Yaml → Option Bool
  | .scalar .plain _ text => boolOfText? text
  | .scalar .literal tag text => if tag = some boolTag then boolOfText? text else none
  | _ => none

/-- The texts of a sequence. Nothing is the empty sequence. -/
def texts? (yaml : Yaml) : Option (List String) :=
  match yaml with
  | .sequence items => items.mapM text?
  | other => if other.isNothing then some [] else none

/-- The entries of a mapping whose keys are texts. Nothing is the empty mapping. -/
def entries? (yaml : Yaml) : Option (List (String × Yaml)) :=
  match yaml with
  | .mapping entries => entries.mapM fun (key, value) => key.text?.map (·, value)
  | other => if other.isNothing then some [] else none

end Yaml

end HeaderForms
