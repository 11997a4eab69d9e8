-- SUMMARY: Substitution for symbols.
import HeaderForms.Proofs.Form.Basic

/-!
# Substitution for symbols

The keys of a substitution may be any forms. Where all of them are symbols, a substitution changes
no other atom and keeps the shape of every list.
-/

namespace HeaderForms.Form

/-- A substitution for symbols. -/
def symbolPairs (bindings : List (String × Form)) : List (Form × Form) :=
  bindings.map fun (name, value) => (.symbol name, value)

theorem same_symbol (name other : String) :
    (Form.symbol name).same (.symbol other) = (name == other) := by
  rw [same]

theorem same_of_ne_symbol {name : String} {form : Form} (h : ∀ name, form ≠ .symbol name) :
    (Form.symbol name).same form = false := by
  cases form with
  | symbol other => exact absurd rfl (h other)
  | integer | float | string | list | dotted | tuple | binary => rw [same] <;> simp

variable (bindings : List (String × Form))

theorem lookup?_symbol (name : String) :
    lookup? (symbolPairs bindings) (.symbol name) = bindings.lookup name := by
  induction bindings with
  | nil => rfl
  | cons binding bindings ih =>
    obtain ⟨other, value⟩ := binding
    rw [lookup?, symbolPairs] at ih
    rw [lookup?, symbolPairs, List.map_cons, List.find?_cons, List.lookup_cons]
    simp only [same_symbol]
    by_cases heq : name = other
    · simp [heq]
    · have hne : (other == name) = false := beq_eq_false_iff_ne.2 (Ne.symm heq)
      have hne' : (name == other) = false := beq_eq_false_iff_ne.2 heq
      rw [hne, hne']
      exact ih

theorem lookup?_of_ne_symbol {form : Form} (h : ∀ name, form ≠ .symbol name) :
    lookup? (symbolPairs bindings) form = none := by
  rw [lookup?, Option.map_eq_none_iff, List.find?_eq_none]
  intro pair hpair
  obtain ⟨⟨name, value⟩, -, rfl⟩ := List.mem_map.1 hpair
  simp only [same_of_ne_symbol h]
  exact Bool.false_ne_true

theorem substituteAll_eq_map (pairs : List (Form × Form)) (forms : List Form) :
    substituteAll pairs forms = forms.map (substitute pairs) := by
  induction forms with
  | nil => rfl
  | cons form forms ih => rw [substituteAll, ih, List.map_cons]

/-- The form with each form that it holds changed. -/
def mapInner (f : Form → Form) : Form → Form
  | .list items => .list (items.map f)
  | .dotted items tail => .dotted (items.map f) (f tail)
  | .tuple items => .tuple (items.map f)
  | atom => atom

theorem substitute_eq (pairs : List (Form × Form)) (form : Form) :
    substitute pairs form =
      (lookup? pairs form).getD (form.mapInner (substitute pairs)) := by
  unfold substitute
  cases lookup? pairs form with
  | some replacement => rfl
  | none =>
    cases form with
    | symbol | integer | float | string | binary => rfl
    | list items => exact congrArg list (substituteAll_eq_map pairs items)
    | dotted items tail =>
      exact congrArg (dotted · (substitute pairs tail)) (substituteAll_eq_map pairs items)
    | tuple items => exact congrArg tuple (substituteAll_eq_map pairs items)

theorem substitute_symbol (name : String) :
    substitute (symbolPairs bindings) (.symbol name) =
      (bindings.lookup name).getD (.symbol name) := by
  rw [substitute_eq, lookup?_symbol]
  rfl

theorem substitute_of_ne_symbol {form : Form} (h : ∀ name, form ≠ .symbol name) :
    substitute (symbolPairs bindings) form =
      form.mapInner (substitute (symbolPairs bindings)) := by
  rw [substitute_eq, lookup?_of_ne_symbol bindings h]
  rfl

/-- The forms that hold no others and are no symbols. -/
def IsLiteral : Form → Prop
  | .integer _ | .float _ | .string _ | .binary _ => True
  | .symbol _ | .list _ | .dotted _ _ | .tuple _ => False

theorem substitute_literal {form : Form} (h : IsLiteral form) :
    substitute (symbolPairs bindings) form = form := by
  cases form with
  | integer | float | string | binary => exact substitute_of_ne_symbol bindings (by simp)
  | symbol | list | dotted | tuple => cases h

theorem substitute_list (items : List Form) :
    substitute (symbolPairs bindings) (.list items) =
      .list (items.map (substitute (symbolPairs bindings))) :=
  substitute_of_ne_symbol bindings (by simp)

theorem substitute_dotted (items : List Form) (tail : Form) :
    substitute (symbolPairs bindings) (.dotted items tail) =
      .dotted (items.map (substitute (symbolPairs bindings)))
        (substitute (symbolPairs bindings) tail) :=
  substitute_of_ne_symbol bindings (by simp)

theorem substitute_tuple (items : List Form) :
    substitute (symbolPairs bindings) (.tuple items) =
      .tuple (items.map (substitute (symbolPairs bindings))) :=
  substitute_of_ne_symbol bindings (by simp)

theorem substitute_nil (form : Form) : substitute [] form = form := by
  have hitems : ∀ items : List Form, (∀ item ∈ items, substitute [] item = item) →
      items.map (substitute []) = items := fun items h => by
    rw [List.map_congr_left h, List.map_id']
  induction form using Form.induction with
  | symbol | integer | float | string | binary => rfl
  | list items ih =>
    rw [substitute_eq]
    exact congrArg list (hitems items ih)
  | dotted items tail ih ihTail =>
    have hdotted : substitute [] (dotted items tail) =
        dotted (items.map (substitute [])) (substitute [] tail) := substitute_eq [] _
    rw [hdotted, hitems items ih, ihTail]
  | tuple items ih =>
    rw [substitute_eq]
    exact congrArg tuple (hitems items ih)

end HeaderForms.Form
