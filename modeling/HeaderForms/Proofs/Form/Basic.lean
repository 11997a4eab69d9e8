-- SUMMARY: Induction over forms, and the subforms of a form.
import HeaderForms.Form.Basic

/-!
# Structure of forms

Forms hold lists of forms. The induction principle here gives the hypothesis for every item of such
a list, and a property of all subforms goes down to the items.
-/

namespace HeaderForms.Form

/-! ## Induction -/

/-- Induction with the hypothesis for every item of a list. -/
@[elab_as_elim]
theorem induction {motive : Form → Prop} (symbol : ∀ name, motive (.symbol name))
    (integer : ∀ value, motive (.integer value)) (float : ∀ value, motive (.float value))
    (string : ∀ text, motive (.string text))
    (list : ∀ items, (∀ item ∈ items, motive item) → motive (.list items))
    (dotted : ∀ items tail, (∀ item ∈ items, motive item) → motive tail →
      motive (.dotted items tail))
    (tuple : ∀ items, (∀ item ∈ items, motive item) → motive (.tuple items))
    (binary : ∀ bytes, motive (.binary bytes)) (form : Form) : motive form := by
  refine @Form.rec motive (fun items => ∀ item ∈ items, motive item) symbol integer float string
    list dotted tuple binary ?_ ?_ form
  · intro item hitem
    cases hitem
  · intro first others hfirst hothers item hitem
    rcases List.mem_cons.1 hitem with rfl | hitem
    · exact hfirst
    · exact hothers item hitem

/-! ## Subforms -/

/-- `Subform inner outer` says that `inner` stands somewhere in `outer`, or is `outer`. -/
inductive Subform (inner : Form) : Form → Prop where
  | refl : Subform inner inner
  | list {items : List Form} {item : Form} :
      item ∈ items → Subform inner item → Subform inner (.list items)
  | dottedItem {items : List Form} {item tail : Form} :
      item ∈ items → Subform inner item → Subform inner (.dotted items tail)
  | dottedTail {items : List Form} {tail : Form} :
      Subform inner tail → Subform inner (.dotted items tail)
  | tuple {items : List Form} {item : Form} :
      item ∈ items → Subform inner item → Subform inner (.tuple items)

theorem Subform.trans {inner middle outer : Form} (h : Subform inner middle)
    (houter : Subform middle outer) : Subform inner outer := by
  induction houter with
  | refl => exact h
  | list hitem _ ih => exact .list hitem ih
  | dottedItem hitem _ ih => exact .dottedItem hitem ih
  | dottedTail _ ih => exact .dottedTail ih
  | tuple hitem _ ih => exact .tuple hitem ih

section

variable {inner : Form}

@[simp]
theorem subform_symbol {name : String} : Subform inner (.symbol name) ↔ inner = .symbol name :=
  ⟨fun h => by cases h; rfl, fun h => h ▸ .refl⟩

@[simp]
theorem subform_integer {value : Int} : Subform inner (.integer value) ↔ inner = .integer value :=
  ⟨fun h => by cases h; rfl, fun h => h ▸ .refl⟩

@[simp]
theorem subform_float {value : Float64} : Subform inner (.float value) ↔ inner = .float value :=
  ⟨fun h => by cases h; rfl, fun h => h ▸ .refl⟩

@[simp]
theorem subform_string {text : String} : Subform inner (.string text) ↔ inner = .string text :=
  ⟨fun h => by cases h; rfl, fun h => h ▸ .refl⟩

@[simp]
theorem subform_binary {bytes : List UInt8} :
    Subform inner (.binary bytes) ↔ inner = .binary bytes :=
  ⟨fun h => by cases h; rfl, fun h => h ▸ .refl⟩

@[simp]
theorem subform_list {items : List Form} :
    Subform inner (.list items) ↔ inner = .list items ∨ ∃ item ∈ items, Subform inner item := by
  constructor
  · rintro (_ | ⟨hitem, h⟩)
    · exact .inl rfl
    · exact .inr ⟨_, hitem, h⟩
  · rintro (rfl | ⟨item, hitem, h⟩)
    · exact .refl
    · exact .list hitem h

@[simp]
theorem subform_dotted {items : List Form} {tail : Form} :
    Subform inner (.dotted items tail) ↔
      inner = .dotted items tail ∨ (∃ item ∈ items, Subform inner item) ∨ Subform inner tail := by
  constructor
  · rintro (_ | _ | ⟨hitem, h⟩ | h)
    · exact .inl rfl
    · exact .inr (.inl ⟨_, hitem, h⟩)
    · exact .inr (.inr h)
  · rintro (rfl | ⟨item, hitem, h⟩ | h)
    · exact .refl
    · exact .dottedItem hitem h
    · exact .dottedTail h

@[simp]
theorem subform_tuple {items : List Form} :
    Subform inner (.tuple items) ↔ inner = .tuple items ∨ ∃ item ∈ items, Subform inner item := by
  constructor
  · rintro (_ | _ | _ | _ | ⟨hitem, h⟩)
    · exact .inl rfl
    · exact .inr ⟨_, hitem, h⟩
  · rintro (rfl | ⟨item, hitem, h⟩)
    · exact .refl
    · exact .tuple hitem h

end

end HeaderForms.Form
