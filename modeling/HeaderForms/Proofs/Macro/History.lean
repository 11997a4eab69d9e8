-- SUMMARY: What a macro table holds after a history of definitions and removals.
import Mathlib.Data.List.Induction
import HeaderForms.Macro.Directive
import HeaderForms.Proofs.Macro.Table

/-!
# Histories of macro tables

A table is what definitions and removals, one after the other, have made of the empty table. What it
holds for a name is told by the changes of that name alone: the mark of absence where the last of
them removed it, and else its definitions since it was last removed, one for each arity. The place
of an arity is that of its first definition, and its value is the last one.
-/

namespace HeaderForms

/-- A definition or a removal of a macro. -/
inductive MacroChange where
  | define (added : MacroDefine)
  | undefine (name : String)
deriving DecidableEq, Repr

namespace MacroChange

def name : MacroChange → String
  | .define added => added.name
  | .undefine name => name

/-- A change that puts no mark of absence in the place of a definition. -/
def Defines : MacroChange → Prop
  | .define added => added.definition ≠ .absent
  | .undefine _ => True

/-- The definitions of a name since it was last removed, with one more change. -/
def keep (name : String) (defines : List MacroDefine) (change : MacroChange) : List MacroDefine :=
  if change.name = name then
    match change with
    | .define added => defines ++ [added]
    | .undefine _ => []
  else defines

/-- The definitions of a name since it was last removed, in order. -/
def since (name : String) (history : List MacroChange) : List MacroDefine :=
  history.foldl (keep name) []

/-- The last change of a name. -/
def last? (name : String) (history : List MacroChange) : Option MacroChange :=
  (history.filter (·.name = name)).getLast?

theorem since_append (name : String) (history : List MacroChange) (change : MacroChange) :
    since name (history ++ [change]) = keep name (since name history) change := by
  simp [since]

theorem last?_append (name : String) (history : List MacroChange) (change : MacroChange) :
    last? name (history ++ [change]) =
      if change.name = name then some change else last? name history := by
  unfold last?
  rw [List.filter_append]
  split
  case isTrue hname => simp [hname]
  case isFalse hname => simp [hname]

theorem since_of_last?_undefine {name : String} {history : List MacroChange}
    (h : last? name history = some (.undefine name)) : since name history = [] := by
  induction history using List.reverseRecOn with
  | nil => rfl
  | append_singleton history change ih =>
    rw [last?_append] at h
    rw [since_append]
    unfold keep
    split at h
    case isTrue hname =>
      cases h
      exact if_pos hname
    case isFalse hname =>
      rw [if_neg hname]
      exact ih h

theorem mem_of_mem_since {name : String} {history : List MacroChange} {added : MacroDefine}
    (h : added ∈ since name history) : .define added ∈ history := by
  induction history using List.reverseRecOn with
  | nil => cases h
  | append_singleton history change ih =>
    rw [since_append] at h
    unfold keep at h
    split at h
    case isTrue =>
      cases change with
      | define other =>
        rcases List.mem_append.1 h with h | h
        · exact List.mem_append_left _ (ih h)
        · rw [List.mem_singleton.1 h]
          simp
      | undefine => cases h
    case isFalse => exact List.mem_append_left _ (ih h)

end MacroChange

namespace MacroTable

/-! ## Entries of changed tables -/

theorem lookup_alter_self {name : String} {change : List MacroEntry → List MacroEntry}
    {macros : List (String × List MacroEntry)}
    (h : macros.Pairwise fun one other => one.1 < other.1) :
    (alter name change macros).lookup name = some (change ((macros.lookup name).getD [])) := by
  induction macros with
  | nil => exact List.lookup_cons_self
  | cons first macros ih =>
    obtain ⟨other, entries⟩ := first
    obtain ⟨hfirst, hrest⟩ := List.pairwise_cons.1 h
    rw [alter]
    split
    case isTrue heq =>
      subst heq
      rw [List.lookup_cons_self, List.lookup_cons_self]
      rfl
    case isFalse hne =>
      rw [lookup_cons_of_ne hne]
      split
      case isTrue hlt =>
        -- The names behind are larger still, so this one has no entries yet.
        have hnone : macros.lookup name = none := by
          refine List.lookup_eq_none_iff.2 fun later hlater => ?_
          have hlater := String.lt_trans hlt (hfirst later hlater)
          simpa using fun heq => String.lt_irrefl _ (heq ▸ hlater)
        rw [List.lookup_cons_self, hnone]
        rfl
      case isFalse => rw [lookup_cons_of_ne hne, ih hrest]

theorem lookup_alter_ne {name other : String} {change : List MacroEntry → List MacroEntry}
    (h : other ≠ name) (macros : List (String × List MacroEntry)) :
    (alter name change macros).lookup other = macros.lookup other := by
  induction macros with
  | nil => exact lookup_cons_of_ne h _ _
  | cons first macros ih =>
    obtain ⟨firstName, entries⟩ := first
    rw [alter]
    split
    case isTrue heq =>
      subst heq
      rw [lookup_cons_of_ne h, lookup_cons_of_ne h]
    case isFalse =>
      split
      case isTrue => exact lookup_cons_of_ne h _ _
      case isFalse => simp only [List.lookup_cons, ih]

/-- What is done to the entries of every name can be done before a change that respects it. -/
theorem map_alter {name : String} {change change' f : List MacroEntry → List MacroEntry}
    (hchange : ∀ entries, f (change entries) = change' (f entries)) (hnil : f [] = [])
    (macros : List (String × List MacroEntry)) :
    (alter name change macros).map (Prod.map id f) =
      alter name change' (macros.map (Prod.map id f)) := by
  have hnew : f (change []) = change' [] := by rw [hchange, hnil]
  induction macros with
  | nil => simp [alter, hnew]
  | cons first macros ih =>
    obtain ⟨other, entries⟩ := first
    rw [alter, List.map_cons, Prod.map_apply, id, alter]
    split
    case isTrue => simp [hchange]
    case isFalse =>
      split
      case isTrue => simp [hnew]
      case isFalse => simp [ih]

def apply (table : MacroTable) : MacroChange → MacroTable
  | .define added => table.define added.name added.arity added.definition
  | .undefine name => table.undefine name

def ofHistory (history : List MacroChange) : MacroTable :=
  history.foldl apply empty

theorem ofHistory_append (history : List MacroChange) (change : MacroChange) :
    ofHistory (history ++ [change]) = (ofHistory history).apply change := by
  simp [ofHistory]

/-- What a change makes of the entries of its name. -/
def changed (entries : List MacroEntry) : MacroChange → List MacroEntry
  | .define added => redefine ⟨added.arity, added.definition⟩ entries
  | .undefine _ => [⟨.noArgs, .absent⟩]

theorem apply_eq (table : MacroTable) (change : MacroChange) :
    table.apply change = ⟨alter change.name (changed · change) table.macros⟩ := by
  cases change <;> rfl

theorem sorted_ofHistory (history : List MacroChange) :
    (ofHistory history).macros.Pairwise fun one other => one.1 < other.1 := by
  induction history using List.reverseRecOn with
  | nil => exact .nil
  | append_singleton history change ih =>
    rw [ofHistory_append, apply_eq]
    exact sorted_alter ih

theorem entries_ofHistory_append (name : String) (history : List MacroChange)
    (change : MacroChange) :
    (ofHistory (history ++ [change])).entries name =
      if change.name = name then changed ((ofHistory history).entries name) change
      else (ofHistory history).entries name := by
  rw [ofHistory_append, apply_eq]
  split
  case isTrue hname =>
    subst hname
    rw [entries, lookup_alter_self (sorted_ofHistory history)]
    rfl
  case isFalse hname => rw [entries, lookup_alter_ne (Ne.symm hname), entries]

/-! ## Entries after a history -/

/-- The entries that are left of definitions of a name: each arity in the place of its first
definition, with the value of its last. -/
structure Shadows (name : String) (defines : List MacroDefine) (entries : List MacroEntry) :
    Prop where
  order : entries.map (·.arity) = (defines.map (·.arity)).eraseDups
  latest : ∀ entry ∈ entries, ∃ before after,
    defines = before ++ ⟨name, entry.arity, entry.definition⟩ :: after ∧
      ∀ later ∈ after, later.arity ≠ entry.arity

/-- What a table holds for a name after a history of changes. -/
structure Records (name : String) (history : List MacroChange) (entries : List MacroEntry) :
    Prop where
  single : (entries.map (·.arity)).Nodup
  removed : MacroChange.last? name history = some (.undefine name) →
    entries = [⟨.noArgs, .absent⟩]
  present : MacroChange.last? name history ≠ some (.undefine name) →
    ∀ entry ∈ entries, entry.definition ≠ .absent
  shadows : MacroChange.last? name history ≠ some (.undefine name) →
    Shadows name (MacroChange.since name history) entries

theorem arities_replace (entry : MacroEntry) (entries : List MacroEntry) :
    (replace entry entries).map (·.arity) =
      if entry.arity ∈ entries.map (·.arity) then entries.map (·.arity)
      else entries.map (·.arity) ++ [entry.arity] := by
  induction entries with
  | nil => rfl
  | cons first entries ih =>
    rw [replace]
    split
    case isTrue heq => simp [heq]
    case isFalse hne =>
      have hne' : entry.arity ≠ first.arity := Ne.symm hne
      rw [List.map_cons, ih, List.map_cons]
      simp only [List.mem_cons, hne', false_or]
      split
      case isTrue => rfl
      case isFalse => rfl

/-- A replaced entry leaves only those of other arities. -/
theorem arity_ne_of_mem_replace {entry other : MacroEntry} {entries : List MacroEntry}
    (hsingle : (entries.map (·.arity)).Nodup) (h : other ∈ replace entry entries) :
    other = entry ∨ other ∈ entries ∧ other.arity ≠ entry.arity := by
  induction entries with
  | nil => exact .inl (List.mem_singleton.1 h)
  | cons first entries ih =>
    obtain ⟨hfirst, hrest⟩ := List.nodup_cons.1 hsingle
    rw [replace] at h
    split at h
    case isTrue heq =>
      rcases List.mem_cons.1 h with rfl | h
      · exact .inl rfl
      · refine .inr ⟨List.mem_cons_of_mem first h, fun harity => hfirst ?_⟩
        exact List.mem_map.2 ⟨other, h, harity.trans heq.symm⟩
    case isFalse hne =>
      rcases List.mem_cons.1 h with rfl | h
      · exact .inr ⟨List.mem_cons_self, hne⟩
      · exact (ih hrest h).imp_right fun hother => ⟨List.mem_cons_of_mem first hother.1, hother.2⟩

theorem eraseDups_append_singleton {α : Type} [DecidableEq α] (values : List α) (value : α) :
    (values ++ [value]).eraseDups =
      if value ∈ values then values.eraseDups else values.eraseDups ++ [value] := by
  rw [List.eraseDups_append]
  split
  case isTrue hmem => simp [List.removeAll, hmem]
  case isFalse hmem => simp [List.removeAll, hmem, List.eraseDups_cons]

/-- One more definition takes the place of the one with its arity, or the last place. -/
theorem Shadows.replace {name : String} {defines : List MacroDefine} {entries : List MacroEntry}
    (h : Shadows name defines entries) (hsingle : (entries.map (·.arity)).Nodup)
    {added : MacroDefine} (hname : added.name = name) :
    Shadows name (defines ++ [added])
      (MacroTable.replace ⟨added.arity, added.definition⟩ entries) where
  order := by
    rw [arities_replace, h.order, List.map_append, List.map_singleton,
      eraseDups_append_singleton]
    simp only [List.mem_eraseDups]
  latest := by
    intro entry hentry
    rcases arity_ne_of_mem_replace hsingle hentry with rfl | ⟨hold, hne⟩
    · exact ⟨defines, [], by subst hname; rfl, List.forall_mem_nil _⟩
    · obtain ⟨before, after, rfl, hafter⟩ := h.latest entry hold
      refine ⟨before, after ++ [added], by simp, fun later hlater => ?_⟩
      rcases List.mem_append.1 hlater with hlater | hlater
      · exact hafter later hlater
      · rw [List.mem_singleton.1 hlater]
        exact Ne.symm hne

theorem shadows_nil (name : String) : Shadows name [] [] :=
  ⟨rfl, fun _ hentry => nomatch hentry⟩

section

variable {name : String} {history : List MacroChange} {entries : List MacroEntry}

theorem Records.append_of_ne (h : Records name history entries) {change : MacroChange}
    (hname : change.name ≠ name) : Records name (history ++ [change]) entries := by
  have hlast : MacroChange.last? name (history ++ [change]) = MacroChange.last? name history := by
    rw [MacroChange.last?_append, if_neg hname]
  have hsince : MacroChange.since name (history ++ [change]) = MacroChange.since name history := by
    rw [MacroChange.since_append]
    exact if_neg hname
  refine ⟨h.single, ?_, ?_, ?_⟩
  · rw [hlast]
    exact h.removed
  · rw [hlast]
    exact h.present
  · rw [hlast, hsince]
    exact h.shadows

theorem records_append_undefine (name : String) (history : List MacroChange) :
    Records name (history ++ [.undefine name]) [⟨.noArgs, .absent⟩] := by
  have hlast : MacroChange.last? name (history ++ [.undefine name]) = some (.undefine name) := by
    rw [MacroChange.last?_append]
    exact if_pos rfl
  exact ⟨List.nodup_singleton _, fun _ => rfl, fun hne => absurd hlast hne,
    fun hne => absurd hlast hne⟩

/-- An entry with a body is a definition of the history. -/
theorem Records.mem_history (h : Records name history entries) {entry : MacroEntry}
    (hentry : entry ∈ entries) {params : List String} {body : List Token}
    (hdefinition : entry.definition = .defined params body) :
    .define ⟨name, entry.arity, entry.definition⟩ ∈ history := by
  have hlast : MacroChange.last? name history ≠ some (.undefine name) := by
    intro hlast
    rw [h.removed hlast] at hentry
    rw [List.mem_singleton.1 hentry] at hdefinition
    cases hdefinition
  obtain ⟨before, after, hsince, -⟩ := (h.shadows hlast).latest entry hentry
  exact MacroChange.mem_of_mem_since (by rw [hsince]; simp)

/-- The entries that are no marks of absence shadow the definitions since the last removal. -/
theorem Records.shadows_filter (h : Records name history entries) :
    Shadows name (MacroChange.since name history) (entries.filter (·.definition ≠ .absent)) := by
  by_cases hlast : MacroChange.last? name history = some (.undefine name)
  case pos =>
    rw [h.removed hlast, MacroChange.since_of_last?_undefine hlast]
    exact shadows_nil name
  case neg =>
    have hpresent := h.present hlast
    rw [List.filter_eq_self.2 (by simpa using hpresent)]
    exact h.shadows hlast

theorem Records.append_define (h : Records name history entries) {added : MacroDefine}
    (hname : added.name = name) (hdefined : added.definition ≠ .absent) :
    Records name (history ++ [.define added])
      (redefine ⟨added.arity, added.definition⟩ entries) := by
  have hlast : MacroChange.last? name (history ++ [.define added]) = some (.define added) := by
    rw [MacroChange.last?_append]
    exact if_pos hname
  have hsince : MacroChange.since name (history ++ [.define added]) =
      MacroChange.since name history ++ [added] := by
    rw [MacroChange.since_append]
    exact if_pos hname
  have hsingle : ((entries.filter (·.definition ≠ .absent)).map (·.arity)).Nodup :=
    h.single.sublist (List.filter_sublist.map _)
  refine ⟨nodup_replace hsingle, fun hremoved => ?_, fun _ entry hentry => ?_, fun _ => ?_⟩
  · rw [hlast] at hremoved
    cases hremoved
  · rcases mem_replace hentry with rfl | hold
    · exact hdefined
    · simpa using (List.mem_filter.1 hold).2
  · rw [hsince]
    exact h.shadows_filter.replace hsingle hname

end

/-- A table holds for each name what the changes of that name say. -/
theorem records_ofHistory (name : String) {history : List MacroChange}
    (h : ∀ change ∈ history, change.Defines) :
    Records name history ((ofHistory history).entries name) := by
  induction history using List.reverseRecOn with
  | nil =>
    exact ⟨List.nodup_nil, nofun, fun _ _ hentry => (nomatch hentry), fun _ => shadows_nil name⟩
  | append_singleton history change ih =>
    have hrecords := ih fun other hother => h other (List.mem_append_left _ hother)
    have hchange := h change (by simp)
    rw [entries_ofHistory_append]
    split
    case isFalse hname => exact hrecords.append_of_ne hname
    case isTrue hname =>
      cases change with
      | define added => exact hrecords.append_define hname hchange
      | undefine other =>
        cases hname
        exact records_append_undefine other history

/-! ## Changes of different names -/

section

variable {name other : String} {change change' : List MacroEntry → List MacroEntry}

theorem ne_of_name_lt (h : name < other) : name ≠ other := by
  rintro rfl
  exact String.lt_irrefl name h

theorem name_trichotomy (name other : String) : name < other ∨ name = other ∨ other < name := by
  by_cases hlt : name < other
  case pos => exact .inl hlt
  case neg =>
    by_cases hgt : other < name
    case pos => exact .inr (.inr hgt)
    case neg => exact .inr (.inl (String.le_antisymm (String.not_lt.1 hgt) (String.not_lt.1 hlt)))

theorem alter_of_lt (h : name < other) (entries : List MacroEntry)
    (macros : List (String × List MacroEntry)) :
    alter name change ((other, entries) :: macros) =
      (name, change []) :: (other, entries) :: macros := by
  rw [alter, if_neg (ne_of_name_lt h), if_pos h]

theorem alter_self (name : String) (entries : List MacroEntry)
    (macros : List (String × List MacroEntry)) :
    alter name change ((name, entries) :: macros) = (name, change entries) :: macros :=
  if_pos rfl

theorem alter_of_gt (h : other < name) (entries : List MacroEntry)
    (macros : List (String × List MacroEntry)) :
    alter name change ((other, entries) :: macros) =
      (other, entries) :: alter name change macros := by
  rw [alter, if_neg (ne_of_name_lt h).symm, if_neg (String.lt_asymm h)]

/-- The smaller of two names is altered before or behind the larger one. -/
theorem alter_comm_of_lt (h : name < other) (macros : List (String × List MacroEntry)) :
    alter name change (alter other change' macros) =
      alter other change' (alter name change macros) := by
  induction macros with
  | nil =>
    have hlater : alter other change' [(name, change [])] =
        (name, change []) :: alter other change' [] := alter_of_gt h _ _
    rw [show alter name change [] = [(name, change [])] from rfl, hlater]
    exact alter_of_lt h _ _
  | cons first macros ih =>
    obtain ⟨firstName, entries⟩ := first
    rcases name_trichotomy other firstName with hother | rfl | hother
    · rw [alter_of_lt hother, alter_of_lt h, alter_of_lt (String.lt_trans h hother),
        alter_of_gt h, alter_of_lt hother]
    · rw [alter_self, alter_of_lt h, alter_of_lt h, alter_of_gt h, alter_self]
    · rw [alter_of_gt hother]
      rcases name_trichotomy name firstName with hname | rfl | hname
      · rw [alter_of_lt hname, alter_of_lt hname, alter_of_gt h, alter_of_gt hother]
      · rw [alter_self, alter_self, alter_of_gt hother]
      · rw [alter_of_gt hname, alter_of_gt hname, alter_of_gt hother, ih]

theorem alter_comm (h : name ≠ other) (macros : List (String × List MacroEntry)) :
    alter name change (alter other change' macros) =
      alter other change' (alter name change macros) := by
  rcases name_trichotomy name other with hlt | heq | hgt
  · exact alter_comm_of_lt hlt macros
  · exact absurd heq h
  · exact (alter_comm_of_lt hgt macros).symm

end

/-- Changes of different names can be made in either order. -/
theorem ofHistory_swap (before after : List MacroChange) {one other : MacroChange}
    (h : one.name ≠ other.name) :
    ofHistory (before ++ one :: other :: after) = ofHistory (before ++ other :: one :: after) := by
  have happly : ∀ table : MacroTable,
      (table.apply one).apply other = (table.apply other).apply one := by
    intro table
    rw [apply_eq _ other, apply_eq _ one, apply_eq _ one, apply_eq _ other, alter_comm (Ne.symm h)]
  simp only [ofHistory, List.foldl_append, List.foldl_cons, happly]

end MacroTable

end HeaderForms
