-- SUMMARY: Macro tables: definitions by name and arity.
import HeaderForms.Token.Basic

/-!
# Macro tables

A macro has one definition for each number of arguments it takes and one for its use without an
argument list, which is not the same as its use with an empty one. The table keeps names in their
order and the definitions of a name in the order in which their arities first came.

Undefining a name leaves a mark in its place, so that a name that was removed can be told from one
that never was; the mark goes when the name is defined again.
-/

namespace HeaderForms

inductive MacroArity where
  | fixed (count : Nat)
  /-- The use without an argument list. -/
  | noArgs
deriving DecidableEq, Repr

inductive MacroDefinition where
  /-- The name was undefined. -/
  | absent
  /-- The value depends on the place of the use. -/
  | predefined
  | defined (params : List String) (body : List Token)
deriving DecidableEq, Repr

structure MacroEntry where
  arity : MacroArity
  definition : MacroDefinition
deriving DecidableEq, Repr

structure MacroTable where
  macros : List (String × List MacroEntry)
deriving DecidableEq, Repr

namespace MacroTable

/-! ## Entries of a name -/

/-- Puts a definition in the place of the one with its arity, or behind the others. -/
def replace (entry : MacroEntry) : List MacroEntry → List MacroEntry
  | [] => [entry]
  | other :: others =>
    if other.arity = entry.arity then entry :: others else other :: replace entry others

/-- Adds a definition to those of a name, whose marks of absence go. -/
def redefine (entry : MacroEntry) (entries : List MacroEntry) : List MacroEntry :=
  replace entry (entries.filter (·.definition ≠ .absent))

/-! ## Tables -/

def empty : MacroTable :=
  ⟨[]⟩

/-- Changes the entries of a name, which has none if it is new. -/
def alter (name : String) (change : List MacroEntry → List MacroEntry) :
    List (String × List MacroEntry) → List (String × List MacroEntry)
  | [] => [(name, change [])]
  | (other, entries) :: rest =>
    if name = other then (other, change entries) :: rest
    else if name < other then (name, change []) :: (other, entries) :: rest
    else (other, entries) :: alter name change rest

def define (table : MacroTable) (name : String) (arity : MacroArity)
    (definition : MacroDefinition) : MacroTable :=
  ⟨alter name (redefine ⟨arity, definition⟩) table.macros⟩

def undefine (table : MacroTable) (name : String) : MacroTable :=
  ⟨alter name (fun _ => [⟨.noArgs, .absent⟩]) table.macros⟩

def entries (table : MacroTable) (name : String) : List MacroEntry :=
  (table.macros.lookup name).getD []

def get? (table : MacroTable) (name : String) (arity : MacroArity) : Option MacroDefinition :=
  ((table.entries name).find? (·.arity = arity)).map (·.definition)

end MacroTable

end HeaderForms
