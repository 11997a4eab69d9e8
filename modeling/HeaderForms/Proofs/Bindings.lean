-- SUMMARY: Looking names up in lists of bindings.
import Mathlib.Data.List.Nodup

/-!
# Bindings

A list of names with values is searched from the front. Where no name comes twice the order does not
matter, and the value of a name is the one it stands beside.
-/

namespace HeaderForms

variable {β : Type} {bindings : List (String × β)}

theorem mem_of_lookup {name : String} {value : β} (h : bindings.lookup name = some value) :
    (name, value) ∈ bindings := by
  obtain ⟨before, after, rfl, -⟩ := List.lookup_eq_some_iff.1 h
  simp

theorem lookup_cons_of_ne {name other : String} (h : name ≠ other) (value : β)
    (bindings : List (String × β)) :
    ((other, value) :: bindings).lookup name = bindings.lookup name := by
  rw [List.lookup_cons, beq_eq_false_iff_ne.2 h]

/-- A name with one value is bound to it, from whichever end the bindings are searched. -/
theorem lookup_eq_some_iff_mem (h : (bindings.map Prod.fst).Nodup) {name : String} {value : β} :
    bindings.lookup name = some value ↔ (name, value) ∈ bindings := by
  refine ⟨mem_of_lookup, fun hmem => ?_⟩
  induction bindings with
  | nil => cases hmem
  | cons binding bindings ih =>
    obtain ⟨other, value'⟩ := binding
    rw [List.map_cons, List.nodup_cons] at h
    rw [List.lookup_cons]
    rcases List.mem_cons.1 hmem with heq | hrest
    · cases heq
      simp
    · have hne : name ≠ other := by
        rintro rfl
        exact h.1 (List.mem_map.2 ⟨_, hrest, rfl⟩)
      rw [beq_eq_false_iff_ne.2 hne]
      exact ih h.2 hrest

theorem lookup_reverse (h : (bindings.map Prod.fst).Nodup) (name : String) :
    bindings.reverse.lookup name = bindings.lookup name := by
  have hreverse : (bindings.reverse.map Prod.fst).Nodup := by
    rw [List.map_reverse]
    exact List.nodup_reverse.2 h
  ext value
  rw [lookup_eq_some_iff_mem hreverse, lookup_eq_some_iff_mem h, List.mem_reverse]

theorem lookup_eq_none {name : String} (h : name ∉ bindings.map Prod.fst) :
    bindings.lookup name = none := by
  cases hlookup : bindings.lookup name with
  | none => rfl
  | some value => exact absurd (List.mem_map_of_mem (f := Prod.fst) (mem_of_lookup hlookup)) h

theorem exists_lookup {name : String} (h : name ∈ bindings.map Prod.fst) :
    ∃ value, bindings.lookup name = some value := by
  cases hlookup : bindings.lookup name with
  | some value => exact ⟨value, rfl⟩
  | none =>
    obtain ⟨binding, hmem, hname⟩ := List.mem_map.1 h
    have hne := List.lookup_eq_none_iff.1 hlookup binding hmem
    simp [hname] at hne

/-- The first place of a name is that of the value it is bound to. -/
theorem exists_lookup_zip {names : List String} {values : List β}
    (h : names.length = values.length) {name : String} {i : Nat}
    (hi : names.idxOf? name = some i) :
    ∃ value, values[i]? = some value ∧ (names.zip values).lookup name = some value := by
  induction names generalizing values i with
  | nil => cases hi
  | cons other names ih =>
    cases values with
    | nil => cases h
    | cons first values =>
      rw [List.idxOf?_cons] at hi
      rw [List.zip_cons_cons]
      split at hi
      case isTrue heq =>
        cases hi
        rw [eq_of_beq heq]
        exact ⟨first, rfl, List.lookup_cons_self⟩
      case isFalse hne =>
        obtain ⟨j, hj, rfl⟩ := Option.map_eq_some_iff.1 hi
        obtain ⟨value, hvalue, hlookup⟩ := ih (Nat.succ.inj h) hj
        have hother : name ≠ other := fun heq => hne (beq_iff_eq.2 heq.symm)
        exact ⟨value, hvalue, (lookup_cons_of_ne hother first _).trans hlookup⟩

end HeaderForms
