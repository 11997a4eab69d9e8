-- SUMMARY: What macro definitions keep of a macro table.
import HeaderForms.Macro.Table
import HeaderForms.Proofs.Bindings
import HeaderForms.Proofs.Token.Lexer

/-!
# Well-formed macro tables

Defining and undefining macros keeps the names of a table in their order and each arity of a name
single, so that an entry is found by its name and arity. A definition has as many parameters as its
arity says, and each parameter is the name of a variable.
-/

namespace HeaderForms

/-- There are as many parameters as an arity says. -/
def MacroArity.Fits (params : List String) : MacroArity → Prop
  | .fixed count => params.length = count
  | .noArgs => params = []

/-- An entry whose parameters are variables and as many as its arity says. -/
def MacroEntry.WellFormed (entry : MacroEntry) : Prop :=
  ∀ params body, entry.definition = .defined params body →
    (∀ param ∈ params, IsVariableName param) ∧ entry.arity.Fits params

/-- The entries of a name: each is well-formed, and no arity comes twice. -/
structure MacroEntry.AllWellFormed (entries : List MacroEntry) : Prop where
  arities : (entries.map (·.arity)).Nodup
  each : ∀ entry ∈ entries, entry.WellFormed

namespace MacroTable

structure WellFormed (table : MacroTable) : Prop where
  sorted : table.macros.Pairwise fun one other => one.1 < other.1
  entries : ∀ name entries, (name, entries) ∈ table.macros → MacroEntry.AllWellFormed entries

/-! ## Entries of a name -/

theorem mem_replace {entry other : MacroEntry} {entries : List MacroEntry}
    (h : other ∈ replace entry entries) : other = entry ∨ other ∈ entries := by
  induction entries with
  | nil => exact .inl (List.mem_singleton.1 h)
  | cons first entries ih =>
    rw [replace] at h
    split at h
    case isTrue =>
      rcases List.mem_cons.1 h with rfl | h
      · exact .inl rfl
      · exact .inr (List.mem_cons_of_mem first h)
    case isFalse =>
      rcases List.mem_cons.1 h with rfl | h
      · exact .inr List.mem_cons_self
      · exact (ih h).imp_right (List.mem_cons_of_mem first)

theorem nodup_replace {entry : MacroEntry} {entries : List MacroEntry}
    (h : (entries.map (·.arity)).Nodup) : ((replace entry entries).map (·.arity)).Nodup := by
  induction entries with
  | nil => simp [replace]
  | cons first entries ih =>
    rw [List.map_cons, List.nodup_cons] at h
    rw [replace]
    split
    case isTrue heq =>
      rw [List.map_cons, List.nodup_cons, ← heq]
      exact h
    case isFalse hne =>
      rw [List.map_cons, List.nodup_cons]
      refine ⟨fun hmem => ?_, ih h.2⟩
      obtain ⟨other, hother, harity⟩ := List.mem_map.1 hmem
      rcases mem_replace hother with rfl | hother
      · exact hne harity.symm
      · exact h.1 (List.mem_map.2 ⟨other, hother, harity⟩)

theorem allWellFormed_redefine {entry : MacroEntry} {entries : List MacroEntry}
    (hentry : entry.WellFormed) (h : MacroEntry.AllWellFormed entries) :
    MacroEntry.AllWellFormed (redefine entry entries) := by
  refine ⟨nodup_replace (h.arities.sublist (List.filter_sublist.map _)), fun other hother => ?_⟩
  rcases mem_replace hother with rfl | hother
  · exact hentry
  · exact h.each other (List.mem_filter.1 hother).1

/-! ## Tables -/

theorem mem_alter {name other : String} {change : List MacroEntry → List MacroEntry}
    {entries : List MacroEntry} {macros : List (String × List MacroEntry)}
    (h : (other, entries) ∈ alter name change macros) :
    (other, entries) ∈ macros ∨ other = name ∧
      ∃ before, entries = change before ∧ (before = [] ∨ (name, before) ∈ macros) := by
  induction macros with
  | nil =>
    cases List.mem_singleton.1 h
    exact .inr ⟨rfl, [], rfl, .inl rfl⟩
  | cons first macros ih =>
    obtain ⟨firstName, firstEntries⟩ := first
    rw [alter] at h
    split at h
    case isTrue heq =>
      rcases List.mem_cons.1 h with hfirst | h
      · cases hfirst
        exact .inr ⟨heq.symm, firstEntries, rfl, .inr (heq ▸ List.mem_cons_self)⟩
      · exact .inl (List.mem_cons_of_mem _ h)
    case isFalse =>
      split at h
      case isTrue =>
        rcases List.mem_cons.1 h with hnew | h
        · cases hnew
          exact .inr ⟨rfl, [], rfl, .inl rfl⟩
        · exact .inl h
      case isFalse =>
        rcases List.mem_cons.1 h with hfirst | h
        · exact .inl (hfirst ▸ List.mem_cons_self)
        · rcases ih h with h | ⟨hname, before, hchange, hbefore⟩
          · exact .inl (List.mem_cons_of_mem _ h)
          · exact .inr ⟨hname, before, hchange, hbefore.imp_right (List.mem_cons_of_mem _)⟩

theorem sorted_alter {name : String} {change : List MacroEntry → List MacroEntry}
    {macros : List (String × List MacroEntry)}
    (h : macros.Pairwise fun one other => one.1 < other.1) :
    (alter name change macros).Pairwise fun one other => one.1 < other.1 := by
  induction macros with
  | nil => exact List.pairwise_singleton _ _
  | cons first macros ih =>
    obtain ⟨firstName, firstEntries⟩ := first
    rw [List.pairwise_cons] at h
    rw [alter]
    split
    case isTrue => exact List.pairwise_cons.2 h
    case isFalse hne =>
      split
      case isTrue hlt =>
        refine List.pairwise_cons.2 ⟨fun other hother => ?_, List.pairwise_cons.2 h⟩
        rcases List.mem_cons.1 hother with rfl | hother
        · exact hlt
        · exact String.lt_trans hlt (h.1 other hother)
      case isFalse hge =>
        have hlt : firstName < name := by
          by_contra hle
          exact hne (String.le_antisymm (String.not_lt.1 hle) (String.not_lt.1 hge))
        refine List.pairwise_cons.2 ⟨fun other hother => ?_, ih h.2⟩
        rcases mem_alter hother with hother | ⟨hname, -⟩
        · exact h.1 other hother
        · rw [hname]
          exact hlt

theorem wellFormed_alter {table : MacroTable} {name : String}
    {change : List MacroEntry → List MacroEntry} (h : table.WellFormed)
    (hchange : ∀ entries, MacroEntry.AllWellFormed entries →
      MacroEntry.AllWellFormed (change entries)) :
    (MacroTable.mk (alter name change table.macros)).WellFormed := by
  refine ⟨sorted_alter h.sorted, fun other entries hmem => ?_⟩
  rcases mem_alter hmem with hmem | ⟨-, before, rfl, rfl | hbefore⟩
  · exact h.entries other entries hmem
  · exact hchange [] ⟨List.nodup_nil, fun _ hentry => nomatch hentry⟩
  · exact hchange before (h.entries name before hbefore)

theorem wellFormed_empty : empty.WellFormed :=
  ⟨.nil, fun _ _ hmem => nomatch hmem⟩

theorem wellFormed_define {table : MacroTable} {arity : MacroArity} {definition : MacroDefinition}
    (h : table.WellFormed) (name : String) (hentry : MacroEntry.WellFormed ⟨arity, definition⟩) :
    (table.define name arity definition).WellFormed :=
  wellFormed_alter h fun _ => allWellFormed_redefine hentry

theorem wellFormed_undefine {table : MacroTable} (h : table.WellFormed) (name : String) :
    (table.undefine name).WellFormed := by
  refine wellFormed_alter h fun _ _ => ⟨List.nodup_singleton _, fun entry hentry => ?_⟩
  cases List.mem_singleton.1 hentry
  intro params body hdefinition
  cases hdefinition

theorem WellFormed.nodup_names {table : MacroTable} (h : table.WellFormed) :
    (table.macros.map Prod.fst).Nodup := by
  refine List.pairwise_map.2 (h.sorted.imp fun hlt heq => ?_)
  rw [heq] at hlt
  exact String.lt_irrefl _ hlt

/-- The entries beside a name are those of the name. -/
theorem WellFormed.entries_eq {table : MacroTable} (h : table.WellFormed) {name : String}
    {entries : List MacroEntry} (hmem : (name, entries) ∈ table.macros) :
    table.entries name = entries := by
  rw [MacroTable.entries, (lookup_eq_some_iff_mem h.nodup_names).2 hmem]
  rfl

theorem WellFormed.nodup_arities {table : MacroTable} (h : table.WellFormed) (name : String) :
    ((table.entries name).map (·.arity)).Nodup := by
  rw [MacroTable.entries]
  cases hlookup : table.macros.lookup name with
  | none => exact List.nodup_nil
  | some found => exact (h.entries name found (mem_of_lookup hlookup)).arities

/-- The definition of a name is one of the entries beside it. -/
theorem exists_of_get? {table : MacroTable} {name : String} {arity : MacroArity}
    {definition : MacroDefinition} (h : table.get? name arity = some definition) :
    ∃ entries entry, (name, entries) ∈ table.macros ∧ entry ∈ entries ∧ entry.arity = arity ∧
      entry.definition = definition := by
  obtain ⟨entry, hfind, hdefinition⟩ := Option.map_eq_some_iff.1 h
  have harity : entry.arity = arity := by simpa using List.find?_some hfind
  have hentry := List.mem_of_find?_eq_some hfind
  rw [MacroTable.entries] at hentry
  cases hlookup : table.macros.lookup name with
  | none =>
    rw [hlookup] at hentry
    cases hentry
  | some entries =>
    rw [hlookup] at hentry
    exact ⟨entries, entry, mem_of_lookup hlookup, hentry, harity, hdefinition⟩

theorem WellFormed.fits {table : MacroTable} (h : table.WellFormed) {name : String}
    {arity : MacroArity} {params : List String} {body : List Token}
    (hget : table.get? name arity = some (.defined params body)) : arity.Fits params := by
  obtain ⟨entries, entry, hentries, hentry, rfl, hdefinition⟩ := exists_of_get? hget
  exact ((h.entries name entries hentries).each entry hentry params body hdefinition).2

end MacroTable

end HeaderForms
