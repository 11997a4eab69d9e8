-- SUMMARY: How templates are filled, rule by rule.
import HeaderForms.Template
import HeaderForms.Proofs.Form.Substitution

/-!
# Filling

What a form wraps is told by its head, and a template is filled by the shape of its forms: atoms stay,
an unquote and a backquote have rules of their own, and any other list is filled item by item, where a
splice puts several items in its place.
-/

namespace HeaderForms

namespace Form

/-! ## Views -/

theorem eq_of_symbol? {form : Form} {name : String} (h : form.symbol? = some name) :
    form = .symbol name := by
  unfold symbol? at h
  split at h
  case h_1 =>
    cases h
    rfl
  case h_2 => cases h

theorem wrapped?_wrap (head : String) (inner : Form) :
    (list [.symbol head, inner]).wrapped? head = some inner :=
  if_pos rfl

theorem eq_of_wrapped? {head : String} {form inner : Form} (h : form.wrapped? head = some inner) :
    form = .list [.symbol head, inner] := by
  unfold wrapped? at h
  split at h
  case h_1 name wrapped =>
    split at h
    case isTrue hname =>
      cases h
      rw [hname]
    case isFalse => cases h
  case h_2 => cases h

end Form

namespace Template

open Form

/-! ## Rules -/

theorem fill_literal {bindings : List (String × Form)} {depth : Nat} {form : Form}
    (h : IsLiteral form) : fill bindings depth form = .ok form := by
  cases form with
  | integer | float | string | binary => rw [fill] <;> simp
  | symbol | list | dotted | tuple => cases h

theorem fill_symbol {bindings : List (String × Form)} {depth : Nat} {name : String} :
    fill bindings depth (.symbol name) = .ok (.symbol name) := by
  rw [fill] <;> simp

/-- A list that is neither an unquote nor a backquote is filled item by item. -/
theorem fill_list {bindings : List (String × Form)} {depth : Nat} {items : List Form}
    (hcomma : ∀ inner, items ≠ [.symbol "comma", inner])
    (hbackquote : ∀ inner, items ≠ [.symbol "backquote", inner]) :
    fill bindings depth (.list items) = .list <$> fillAll bindings depth items := by
  rw [fill]
  · exact hcomma
  · exact hbackquote

theorem fillAll_kept {bindings : List (String × Form)} {depth : Nat} {item : Form}
    (h : item.wrapped? "comma-at" = none ∨ depth ≠ 1) (items : List Form) :
    fillAll bindings depth (item :: items) = (do
      let filled ← fill bindings depth item
      return filled :: (← fillAll bindings depth items)) := by
  rw [fillAll]
  rintro name hname rfl
  rcases h with hnone | hne
  · rw [hnone] at hname
    cases hname
  · exact hne rfl

theorem fillAll_unbound {bindings : List (String × Form)} {item name : Form} {error : ExpandError}
    (hsplice : item.wrapped? "comma-at" = some name) (hlookup : lookup bindings name = .error error)
    (items : List Form) : fillAll bindings 1 (item :: items) = .error error := by
  simp only [fillAll, hsplice, hlookup]
  rfl

end Template

end HeaderForms
