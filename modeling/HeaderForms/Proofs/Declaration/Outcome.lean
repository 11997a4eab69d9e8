-- SUMMARY: The outcomes of declarations: which there are, and the heads of their forms.
import HeaderForms.Declaration.ToForm

/-!
# Outcomes of declarations

Where no record has a typed half, a declaration that tokens hold becomes an attribute or a form, or
it is dropped with a warning. A form that is no attribute has one of the heads of definitions, and
no macro is defined by it.
-/

namespace HeaderForms

/-- A list with this head. -/
def Form.Calls (head : String) (form : Form) : Prop :=
  ∃ args, form = Form.call head args

theorem Form.Calls.head_eq {head head' : String} {form : Form} (h : form.Calls head)
    (h' : form.Calls head') : head = head' := by
  obtain ⟨args, rfl⟩ := h
  obtain ⟨args', heq⟩ := h'
  cases heq
  rfl

namespace Declaration

/-- A declaration that tokens can hold. -/
def IsRead : Declaration → Prop
  | .recordType .. | .unreadable _ | .ignored _ | .endOfFile => False
  | _ => True

/-! ## Kinds -/

theorem outcome_ofConverted {head : Head} {place : Form → Outcome} (converted : Converted Form) :
    (∃ form, Outcome.ofConverted head place converted = place form) ∨
    ∃ head' reason, Outcome.ofConverted head place converted =
      .dropped (.declaration head' reason) := by
  cases converted with
  | ok form => exact .inl ⟨form, rfl⟩
  | error error => exact .inr ⟨head, .conversion error, rfl⟩

variable {declaration : Declaration}

/-- Where no record has a typed half, what was read has a form or is dropped. -/
theorem outcome_of_isRead (h : declaration.IsRead) :
    (∃ form, declaration.outcome [] = .attribute form) ∨
    (∃ form, declaration.outcome [] = .topLevel form) ∨
    ∃ head reason, declaration.outcome [] = .dropped (.declaration head reason) := by
  cases declaration with
  | record | type | opaqueType | spec | function => exact .inr (outcome_ofConverted _)
  | «attribute» => exact (outcome_ofConverted _).imp_right .inr
  | exports | imports => exact .inl ⟨_, rfl⟩
  | unsupported head reason => exact .inr (.inr ⟨head, .source reason, rfl⟩)
  | recordType | unreadable | ignored | endOfFile => exact h.elim

theorem typedRecord?_eq_none (h : declaration.IsRead) : declaration.typedRecord? = none := by
  cases declaration with
  | recordType => exact h.elim
  | _ => rfl

/-! ## Heads -/

/-- The heads of the forms of declarations. -/
def heads : List String :=
  ["defrecord", "deftype", "defopaque", "defspec", "defun"]

/-- A converted form that is built around what another conversion gives. -/
theorem calls_of_bind {ε α : Type} {conversion : Except ε α} {head : String}
    {arguments : α → List Form} {form : Form}
    (h : (conversion >>= fun value => pure (Form.call head (arguments value))) = .ok form) :
    form.Calls head := by
  cases conversion with
  | error => cases h
  | ok value =>
    cases h
    exact ⟨_, rfl⟩

theorem exists_calls_of_ofConverted {head : Head} {converted : Converted Form} {form : Form}
    {name : String} (hname : name ∈ heads) (hcalls : converted = .ok form → form.Calls name)
    (h : (Outcome.ofConverted head .topLevel converted).topLevel? = some form) :
    ∃ name ∈ heads, form.Calls name := by
  cases converted with
  | error => cases h
  | ok value =>
    cases h
    exact ⟨name, hname, hcalls rfl⟩

theorem topLevel?_ofConverted_attribute (head : Head) (converted : Converted Form) :
    (Outcome.ofConverted head .attribute converted).topLevel? = none := by
  cases converted <;> rfl

theorem exists_calls_of_topLevel? {typedRecords : List String} {form : Form}
    (h : (declaration.outcome typedRecords).topLevel? = some form) :
    ∃ name ∈ heads, form.Calls name := by
  cases declaration with
  | record name fields =>
    rw [outcome] at h
    split at h
    case isTrue => cases h
    case isFalse => exact exists_calls_of_ofConverted (by decide) calls_of_bind h
  | recordType | type | opaqueType | spec | function =>
    exact exists_calls_of_ofConverted (by decide) calls_of_bind h
  | «attribute» => exact absurd (h.symm.trans (topLevel?_ofConverted_attribute _ _)) nofun
  | exports | imports | unsupported | unreadable | ignored | endOfFile => cases h

end Declaration

end HeaderForms
