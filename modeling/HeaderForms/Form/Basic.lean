-- SUMMARY: Forms: the data of the macro language, their builders, equality, and substitution.
import HeaderForms.Float64.Basic

/-!
# Forms

Forms are the data of the macro language and the one kind of value that headers become. A
quotation is no kind of its own: it is the two-element list headed by `quote`, and likewise for
`backquote`, `comma` and `comma-at`, which the printer and the reader abbreviate.
-/

namespace HeaderForms

inductive Form where
  | symbol (name : String)
  | integer (value : Int)
  | float (value : Float64)
  | string (text : String)
  | list (items : List Form)
  /-- An improper list, `(items . tail)`. -/
  | dotted (items : List Form) (tail : Form)
  | tuple (items : List Form)
  | binary (bytes : List UInt8)
deriving Inhabited, Repr

namespace Form

/-! ## Builders -/

def nil : Form :=
  .list []

/-- The list `(head args...)`. -/
def call (head : String) (args : List Form) : Form :=
  .list (.symbol head :: args)

def quote (form : Form) : Form :=
  call "quote" [form]

def backquote (form : Form) : Form :=
  call "backquote" [form]

def comma (form : Form) : Form :=
  call "comma" [form]

/-! ## Views -/

def symbol? : Form → Option String
  | .symbol name => some name
  | _ => none

def list? : Form → Option (List Form)
  | .list items => some items
  | _ => none

def isSymbol (name : String) : Form → Bool
  | .symbol other => other == name
  | _ => false

/-- The form that the two-element list headed by `head` wraps. -/
def wrapped? (head : String) : Form → Option Form
  | .list [.symbol name, inner] => if name = head then some inner else none
  | _ => none

/-! ## Equality -/

mutual

/-- Equality up to numeric equality of the floats inside. -/
def same : Form → Form → Bool
  | .symbol a, .symbol b => a == b
  | .integer a, .integer b => a == b
  | .float a, .float b => a.same b
  | .string a, .string b => a == b
  | .list a, .list b => sameAll a b
  | .dotted a s, .dotted b t => sameAll a b && same s t
  | .tuple a, .tuple b => sameAll a b
  | .binary a, .binary b => a == b
  | _, _ => false

def sameAll : List Form → List Form → Bool
  | [], [] => true
  | a :: as, b :: bs => same a b && sameAll as bs
  | _, _ => false

end

/-! ## Substitution -/

/-- The replacement of the first key that a form equals. -/
def lookup? (pairs : List (Form × Form)) (form : Form) : Option Form :=
  (pairs.find? fun (key, _) => key.same form).map (·.2)

mutual

/-- Replaces each subform that equals a key, outermost first. A replacement is not searched
again. -/
def substitute (pairs : List (Form × Form)) (form : Form) : Form :=
  match lookup? pairs form with
  | some replacement => replacement
  | none =>
    match form with
    | .list items => .list (substituteAll pairs items)
    | .dotted items tail => .dotted (substituteAll pairs items) (substitute pairs tail)
    | .tuple items => .tuple (substituteAll pairs items)
    | atom => atom

def substituteAll (pairs : List (Form × Form)) : List Form → List Form
  | [] => []
  | form :: forms => substitute pairs form :: substituteAll pairs forms

end

end Form

end HeaderForms
