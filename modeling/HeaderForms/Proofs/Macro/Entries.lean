-- SUMMARY: Macro tables are translated entry by entry.
import HeaderForms.Proofs.ByteOrder
import HeaderForms.Proofs.Macro.Definition
import HeaderForms.Proofs.Session

/-!
# Translation by entries

Every definition in a macro table has an outcome of its own: the clause that it becomes, or the
obstacle that a warning names. The outcomes stand in the order of names, and within a name those of
fixed arity come first. The forms and the warnings of a table are read off its outcomes, so that no
entry has a part in what becomes of another one.
-/

namespace HeaderForms

/-! ## Outcomes -/

/-- What becomes of a definition: its clause, or what is in the way of one. -/
structure MacroOutcome where
  name : String
  arity : MacroArity
  result : Except Obstacle Form

namespace MacroOutcome

def clause? (outcome : MacroOutcome) : Option Form :=
  outcome.result.toOption

def warning? (outcome : MacroOutcome) : Option Warning :=
  match outcome.result with
  | .ok _ => none
  | .error obstacle => some (.macroClause outcome.name outcome.arity obstacle)

end MacroOutcome

namespace MacroForm

/-- The outcome of an entry. A mark in the place of a definition has none. -/
def outcome? (name : String) (entry : MacroEntry) : Option MacroOutcome :=
  match entry.definition with
  | .defined params body => some ⟨name, entry.arity, clause entry.arity params body⟩
  | .absent | .predefined => none

/-- The entries of fixed arity in their order, and then the one without an argument list. -/
def fixedFirst (entries : List MacroEntry) : List MacroEntry :=
  entries.filter (·.arity ≠ .noArgs) ++ entries.filter (·.arity = .noArgs)

def outcomes (name : String) (entries : List MacroEntry) : List MacroOutcome :=
  (fixedFirst entries).filterMap (outcome? name)

theorem outcome?_eq (name : String) (entry : MacroEntry) :
    outcome? name entry = (defined? entry).map fun defined =>
      ⟨name, defined.1, clause defined.1 defined.2.1 defined.2.2⟩ := by
  obtain ⟨arity, definition⟩ := entry
  cases definition <;> rfl

theorem tags_of_outcome? {name : String} {entry : MacroEntry} {outcome : MacroOutcome}
    (h : outcome? name entry = some outcome) :
    outcome.name = name ∧ outcome.arity = entry.arity := by
  obtain ⟨arity, definition⟩ := entry
  cases definition with
  | absent | predefined => cases h
  | defined params body =>
    cases h
    exact ⟨rfl, rfl⟩

theorem filter_filterMap_defined? (keep : MacroArity → Bool) (entries : List MacroEntry) :
    (entries.filterMap defined?).filter (fun defined => keep defined.1) =
      (entries.filter fun entry => keep entry.arity).filterMap defined? := by
  rw [List.filter_filterMap, List.filterMap_filter]
  refine List.filterMap_congr fun entry _ => ?_
  obtain ⟨arity, definition⟩ := entry
  cases definition with
  | absent | predefined => exact (ite_self none).symm
  | defined params body => rfl

theorem definedEntries_eq_filterMap (entries : List MacroEntry) :
    definedEntries entries = (fixedFirst entries).filterMap defined? := by
  rw [fixedFirst, List.filterMap_append]
  exact congr_arg₂ (· ++ ·) (filter_filterMap_defined? (fun arity => arity ≠ .noArgs) entries)
    (filter_filterMap_defined? (fun arity => arity = .noArgs) entries)

/-- The clauses and the warnings of a macro are those of its outcomes. -/
theorem clauses_eq (name : String) (entries : List MacroEntry) :
    clauses name (definedEntries entries) =
      ((outcomes name entries).filterMap (·.clause?),
        (outcomes name entries).filterMap (·.warning?)) := by
  have houtcomes : outcomes name entries = (definedEntries entries).map fun defined =>
      ⟨name, defined.1, clause defined.1 defined.2.1 defined.2.2⟩ := by
    rw [outcomes, definedEntries_eq_filterMap, List.map_filterMap]
    exact List.filterMap_congr fun entry _ => outcome?_eq name entry
  rw [houtcomes]
  induction definedEntries entries with
  | nil => rfl
  | cons defined entries ih =>
    obtain ⟨arity, params, body⟩ := defined
    rw [clauses, ih, List.map_cons, List.filterMap_cons, List.filterMap_cons]
    cases clause arity params body with
    | ok | error => rfl

/-! ## Changes of one entry -/

theorem filter_fixed_of_arity {arity : MacroArity} {entries : List MacroEntry}
    (h : ∀ entry ∈ entries, entry.arity = arity) :
    entries.filter (·.arity ≠ .noArgs) = if arity = .noArgs then [] else entries := by
  split
  case isTrue harity =>
    exact List.filter_eq_nil_iff.2 fun entry hentry => by simp [h entry hentry, harity]
  case isFalse harity =>
    exact List.filter_eq_self.2 fun entry hentry => by simp [h entry hentry, harity]

theorem filter_noArgs_of_arity {arity : MacroArity} {entries : List MacroEntry}
    (h : ∀ entry ∈ entries, entry.arity = arity) :
    entries.filter (·.arity = .noArgs) = if arity = .noArgs then entries else [] := by
  split
  case isTrue harity =>
    exact List.filter_eq_self.2 fun entry hentry => by simp [h entry hentry, harity]
  case isFalse harity =>
    exact List.filter_eq_nil_iff.2 fun entry hentry => by simp [h entry hentry, harity]

/-- An entry has its place among the outcomes by its arity, whatever its definition is. -/
theorem exists_fixedFirst (before after : List MacroEntry) (arity : MacroArity) :
    ∃ earlier later, ∀ middle : List MacroEntry, (∀ entry ∈ middle, entry.arity = arity) →
      fixedFirst (before ++ middle ++ after) = earlier ++ middle ++ later := by
  by_cases harity : arity = .noArgs
  · refine ⟨before.filter (·.arity ≠ .noArgs) ++ after.filter (·.arity ≠ .noArgs) ++
      before.filter (·.arity = .noArgs), after.filter (·.arity = .noArgs), fun middle hmiddle => ?_⟩
    simp only [fixedFirst, List.filter_append, filter_fixed_of_arity hmiddle,
      filter_noArgs_of_arity hmiddle, if_pos harity, List.nil_append, List.append_assoc]
  · refine ⟨before.filter (·.arity ≠ .noArgs), after.filter (·.arity ≠ .noArgs) ++
      (before.filter (·.arity = .noArgs) ++ after.filter (·.arity = .noArgs)),
      fun middle hmiddle => ?_⟩
    simp only [fixedFirst, List.filter_append, filter_fixed_of_arity hmiddle,
      filter_noArgs_of_arity hmiddle, if_neg harity, List.nil_append, List.append_assoc]

/-- The entry becomes no clause. -/
def Fails (name : String) (entry : MacroEntry) : Prop :=
  (outcome? name entry).bind (·.clause?) = none

theorem filterMap_clause?_outcomes (name : String) (entries : List MacroEntry) :
    (outcomes name entries).filterMap (·.clause?) =
      (fixedFirst entries).filterMap fun entry => (outcome? name entry).bind (·.clause?) :=
  List.filterMap_filterMap

/-- Entries that fail leave the clauses of the others as they are. -/
theorem clauses_of_fails {name : String} {middle : List MacroEntry}
    (h : ∀ entry ∈ middle, Fails name entry) (before after : List MacroEntry) :
    (outcomes name (before ++ middle ++ after)).filterMap (·.clause?) =
      (outcomes name (before ++ after)).filterMap (·.clause?) := by
  have hnone : ∀ keep : MacroEntry → Bool, (middle.filter keep).filterMap (fun entry =>
      (outcome? name entry).bind (·.clause?)) = [] := fun keep =>
    List.filterMap_eq_nil_iff.2 fun entry hentry => h entry (List.mem_filter.1 hentry).1
  simp only [filterMap_clause?_outcomes, fixedFirst, List.filter_append, List.filterMap_append,
    hnone, List.append_nil]

/-! ## Outcomes of one entry -/

/-- Where no key comes twice, an item is alone with its key. -/
theorem filter_key_eq {α κ : Type} [DecidableEq κ] {key : α → κ} {items : List α}
    (h : (items.map key).Nodup) {item : α} (hmem : item ∈ items) :
    items.filter (key · = key item) = [item] := by
  induction items with
  | nil => cases hmem
  | cons first items ih =>
    rw [List.map_cons, List.nodup_cons] at h
    rcases List.mem_cons.1 hmem with rfl | hmem
    · have hothers : items.filter (key · = key item) = [] := by
        refine List.filter_eq_nil_iff.2 fun other hother heq => h.1 ?_
        rw [← of_decide_eq_true heq]
        exact List.mem_map_of_mem hother
      rw [List.filter_cons_of_pos (by simp), hothers]
    · have hne : key first ≠ key item := fun heq => h.1 (heq ▸ List.mem_map_of_mem hmem)
      rw [List.filter_cons_of_neg (by simpa using hne), ih h.2 hmem]

theorem fixedFirst_perm (entries : List MacroEntry) : (fixedFirst entries).Perm entries := by
  have hkeep : (fun entry : MacroEntry => decide (entry.arity = .noArgs)) =
      fun entry => !decide (entry.arity ≠ .noArgs) := by
    funext entry
    simp
  rw [fixedFirst, hkeep]
  exact List.filter_append_perm _ entries

theorem filter_outcomes_arity (name : String) {entries : List MacroEntry}
    (h : (entries.map (·.arity)).Nodup) {entry : MacroEntry} (hmem : entry ∈ entries) :
    (outcomes name entries).filter (·.arity = entry.arity) = (outcome? name entry).toList := by
  have hperm := fixedFirst_perm entries
  have hfilter : (outcomes name entries).filter (·.arity = entry.arity) =
      ((fixedFirst entries).filter (·.arity = entry.arity)).filterMap (outcome? name) := by
    rw [outcomes, List.filter_filterMap, List.filterMap_filter]
    refine List.filterMap_congr fun other _ => ?_
    cases houtcome : outcome? name other with
    | none => exact (ite_self none).symm
    | some outcome =>
      rw [Option.filter_some, (tags_of_outcome? houtcome).2]
  rw [hfilter, filter_key_eq ((hperm.map _).nodup_iff.2 h) (hperm.mem_iff.2 hmem),
    List.filterMap_cons, List.filterMap_nil]
  cases outcome? name entry <;> rfl

end MacroForm

/-! ## Tables -/

open MacroForm

namespace MacroTable

/-- The outcomes of all definitions, in the order of names. -/
def outcomes (table : MacroTable) : List MacroOutcome :=
  table.macros.flatMap fun (name, entries) => MacroForm.outcomes name entries

theorem ofEntries_eq (name : String) (entries : List MacroEntry) :
    ofEntries name entries =
      (definition? name ((MacroForm.outcomes name entries).filterMap (·.clause?)),
        (MacroForm.outcomes name entries).filterMap (·.warning?)) := by
  rw [ofEntries, clauses_eq]

theorem toForms_eq (table : MacroTable) (session : Session) :
    table.toForms session =
      (table.macros.filterMap fun (name, entries) =>
        definition? name ((MacroForm.outcomes name entries).filterMap (·.clause?)),
      session.extend [] (table.outcomes.filterMap (·.warning?))) := by
  simp only [toForms, Session.foldl_addWarning, ofEntries_eq, List.filterMap_map, List.flatMap_map,
    outcomes, List.filterMap_flatMap]
  rfl

theorem name_of_mem_outcomes {name : String} {entries : List MacroEntry} {outcome : MacroOutcome}
    (h : outcome ∈ MacroForm.outcomes name entries) : outcome.name = name := by
  obtain ⟨entry, -, houtcome⟩ := List.mem_filterMap.1 h
  exact (tags_of_outcome? houtcome).1

/-- The outcomes of a name are those of its entries. -/
theorem filter_outcomes_name {table : MacroTable} (h : table.WellFormed) (name : String) :
    table.outcomes.filter (·.name = name) = MacroForm.outcomes name (table.entries name) := by
  obtain ⟨macros⟩ := table
  have hsorted : macros.Pairwise fun one other => one.1 < other.1 := h.sorted
  clear h
  rw [outcomes, entries]
  induction macros with
  | nil => rfl
  | cons first macros ih =>
    obtain ⟨other, entries⟩ := first
    rw [List.pairwise_cons] at hsorted
    rw [List.flatMap_cons, List.filter_append, ih hsorted.2]
    by_cases hname : name = other
    · have hnone : macros.lookup name = none := by
        refine lookup_eq_none fun hmem => ?_
        obtain ⟨pair, hpair, heq⟩ := List.mem_map.1 hmem
        have hlt := hsorted.1 pair hpair
        rw [heq, hname] at hlt
        exact String.lt_irrefl other hlt
      have hall : (MacroForm.outcomes other entries).filter (·.name = name) =
          MacroForm.outcomes other entries :=
        List.filter_eq_self.2 fun outcome houtcome => by
          simp [name_of_mem_outcomes houtcome, hname]
      rw [hnone, hall, hname, List.lookup_cons_self]
      exact List.append_nil _
    · have hnil : (MacroForm.outcomes other entries).filter (·.name = name) = [] :=
        List.filter_eq_nil_iff.2 fun outcome houtcome => by
          simpa [name_of_mem_outcomes houtcome] using Ne.symm hname
      rw [hnil, List.nil_append, lookup_cons_of_ne hname]

/-- The clauses of a name, in the order of its outcomes. -/
def clausesOf (table : MacroTable) (name : String) : List Form :=
  (table.outcomes.filter (·.name = name)).filterMap (·.clause?)

/-- The translation of a table goes entry by entry. -/
structure TranslatedByEntry (table : MacroTable) : Prop where
  /-- Each definition with a body has one outcome, and the other entries have none. -/
  own : ∀ name, ∀ entry ∈ table.entries name,
    table.outcomes.filter (fun outcome => outcome.name = name ∧ outcome.arity = entry.arity) =
      (outcome? name entry).toList
  /-- There is nothing else to an outcome than a clause or a warning with its name and arity. -/
  either : ∀ outcome ∈ table.outcomes,
    (∃ form, outcome.clause? = some form ∧ outcome.warning? = none) ∨
      ∃ obstacle, outcome.clause? = none ∧
        outcome.warning? = some (.macroClause outcome.name outcome.arity obstacle)
  /-- The fixed arities of a name come in the order of the table, and behind them the one without an
  argument list. -/
  arities : ∀ name, table.outcomes.filter (·.name = name) =
    (fixedFirst (table.entries name)).filterMap (outcome? name)
  /-- No name comes twice, and all names are in the order of their bytes. -/
  names : (table.macros.map Prod.fst).Pairwise (fun one other => utf8 one < utf8 other)
  /-- The outcomes are in the order of names too. -/
  order : table.outcomes.Pairwise fun one other =>
    one.name = other.name ∨ utf8 one.name < utf8 other.name
  /-- The forms are the definitions of names by their clauses, in the order of names. -/
  forms : ∀ session, (table.toForms session).1 =
    (table.macros.map Prod.fst).filterMap fun name =>
      if (table.clausesOf name).isEmpty then none
      else some (Form.call "defmacro" (.symbol name :: table.clausesOf name))
  /-- A name has one definition if one of its entries has a clause, and none if no entry has. -/
  definition : ∀ session name,
    (table.clausesOf name ≠ [] ↔ ∃ entry ∈ table.entries name, ¬ Fails name entry) ∧
      (table.toForms session).1.filter (Template.isDefinitionOf name) =
        if (table.clausesOf name).isEmpty then []
        else [Form.call "defmacro" (.symbol name :: table.clausesOf name)]
  /-- The session gets the warnings and no error. -/
  session : ∀ session, (table.toForms session).2 =
    session.extend [] (table.outcomes.filterMap (·.warning?))
  /-- Where the definition of an entry is changed, or the entry is left out, all other outcomes are
  the same. -/
  change : ∀ {front back : List (String × List MacroEntry)} {name : String}
    {before after : List MacroEntry} {entry : MacroEntry},
    table.macros = front ++ (name, before ++ [entry] ++ after) :: back →
    ∃ earlier later, table.outcomes = earlier ++ (outcome? name entry).toList ++ later ∧
      ∀ changed : Option MacroEntry, (∀ other ∈ changed, other.arity = entry.arity) →
        outcomes ⟨front ++ (name, before ++ changed.toList ++ after) :: back⟩ =
          earlier ++ (changed.bind (outcome? name)).toList ++ later
  /-- An entry without a clause has no part in the forms. -/
  failing : ∀ {front back : List (String × List MacroEntry)} {name : String}
    {before after : List MacroEntry} {entry : MacroEntry},
    table.macros = front ++ (name, before ++ [entry] ++ after) :: back → Fails name entry →
    ∀ changed : Option MacroEntry, (∀ other ∈ changed, Fails name other) →
      ∀ session session',
        (toForms ⟨front ++ (name, before ++ changed.toList ++ after) :: back⟩ session').1 =
          (table.toForms session).1

theorem pairwise_outcomes {table : MacroTable} (h : table.WellFormed) :
    table.outcomes.Pairwise fun one other =>
      one.name = other.name ∨ utf8 one.name < utf8 other.name := by
  refine List.pairwise_flatMap.2 ⟨fun (name, entries) _ => ?_, ?_⟩
  · refine List.pairwise_of_forall_mem_list fun outcome houtcome outcome' houtcome' => ?_
    exact .inl ((name_of_mem_outcomes houtcome).trans (name_of_mem_outcomes houtcome').symm)
  · refine h.sorted.imp ?_
    intro one other hlt outcome houtcome outcome' houtcome'
    rw [name_of_mem_outcomes houtcome, name_of_mem_outcomes houtcome']
    exact .inr (utf8_lt hlt)

theorem forms_eq {table : MacroTable} (h : table.WellFormed) (session : Session) :
    (table.toForms session).1 =
      (table.macros.map Prod.fst).filterMap fun name => definition? name (table.clausesOf name) := by
  rw [toForms_eq, List.filterMap_map]
  refine List.filterMap_congr fun (name, entries) hmem => ?_
  rw [Function.comp_apply, clausesOf, filter_outcomes_name h, h.entries_eq hmem]

theorem isDefinitionOf_definition? {name other : String} {clauses : List Form} {form : Form}
    (h : definition? other clauses = some form) :
    Template.isDefinitionOf name form = decide (other = name) := by
  unfold definition? at h
  split at h
  case isTrue => cases h
  case isFalse =>
    cases h
    rfl

theorem clausesOf_ne_nil {table : MacroTable} (h : table.WellFormed) (name : String) :
    table.clausesOf name ≠ [] ↔ ∃ entry ∈ table.entries name, ¬ Fails name entry := by
  have hperm := fixedFirst_perm (table.entries name)
  rw [clausesOf, filter_outcomes_name h, filterMap_clause?_outcomes, Ne, List.filterMap_eq_nil_iff]
  simp only [hperm.mem_iff, not_forall, Fails, exists_prop]

theorem filter_forms {table : MacroTable} (h : table.WellFormed) (session : Session)
    (name : String) : (table.toForms session).1.filter (Template.isDefinitionOf name) =
      (definition? name (table.clausesOf name)).toList := by
  have hfilter : (table.toForms session).1.filter (Template.isDefinitionOf name) =
      ((table.macros.map Prod.fst).filter (· = name)).filterMap fun other =>
        definition? other (table.clausesOf other) := by
    rw [forms_eq h, List.filter_filterMap, List.filterMap_filter]
    refine List.filterMap_congr fun other _ => ?_
    cases hdefinition : definition? other (table.clausesOf other) with
    | none => exact (ite_self none).symm
    | some form => rw [Option.filter_some, isDefinitionOf_definition? hdefinition]
  by_cases hname : name ∈ table.macros.map Prod.fst
  · have hsingle : (table.macros.map Prod.fst).filter (· = name) = [name] :=
      filter_key_eq (List.map_id _ ▸ h.nodup_names) hname
    rw [hfilter, hsingle, List.filterMap_cons, List.filterMap_nil]
    cases definition? name (table.clausesOf name) <;> rfl
  · have hnone : (table.macros.map Prod.fst).filter (· = name) = [] :=
      List.filter_eq_nil_iff.2 fun other hother heq => hname (of_decide_eq_true heq ▸ hother)
    have hclauses : table.clausesOf name = [] := by
      rw [clausesOf, filter_outcomes_name h, entries, lookup_eq_none hname]
      rfl
    rw [hfilter, hnone, hclauses]
    rfl

theorem exists_outcomes (name : String) (entry : MacroEntry) (before after : List MacroEntry)
    (front back : List (String × List MacroEntry)) :
    ∃ earlier later, ∀ changed : Option MacroEntry,
      (∀ other ∈ changed, other.arity = entry.arity) →
        outcomes ⟨front ++ (name, before ++ changed.toList ++ after) :: back⟩ =
          earlier ++ (changed.bind (outcome? name)).toList ++ later := by
  obtain ⟨earlier, later, hfixed⟩ := exists_fixedFirst before after entry.arity
  refine ⟨outcomes ⟨front⟩ ++ earlier.filterMap (outcome? name),
    later.filterMap (outcome? name) ++ outcomes ⟨back⟩, fun changed hchanged => ?_⟩
  have hmiddle : changed.toList.filterMap (outcome? name) =
      (changed.bind (outcome? name)).toList := by
    cases changed with
    | none => rfl
    | some other =>
      rw [Option.toList_some, List.filterMap_cons, Option.bind_some]
      cases outcome? name other <;> rfl
  have hname : MacroForm.outcomes name (before ++ changed.toList ++ after) =
      earlier.filterMap (outcome? name) ++ (changed.bind (outcome? name)).toList ++
        later.filterMap (outcome? name) := by
    have harities : ∀ other ∈ changed.toList, other.arity = entry.arity :=
      fun other hother => hchanged other (Option.mem_toList.1 hother)
    rw [MacroForm.outcomes, hfixed _ harities, List.filterMap_append, List.filterMap_append,
      hmiddle]
  simp only [outcomes, List.flatMap_append, List.flatMap_cons, hname]
  simp only [List.append_assoc]

theorem toForms_of_fails {name : String} {before middle after : List MacroEntry}
    (h : ∀ entry ∈ middle, Fails name entry) (front back : List (String × List MacroEntry))
    (session session' : Session) :
    (toForms ⟨front ++ (name, before ++ middle ++ after) :: back⟩ session).1 =
      (toForms ⟨front ++ (name, before ++ after) :: back⟩ session').1 := by
  simp only [toForms_eq, List.filterMap_append, List.filterMap_cons, clauses_of_fails h]

theorem translatedByEntry {table : MacroTable} (h : table.WellFormed) :
    table.TranslatedByEntry where
  own name entry hentry := by
    simp only [Bool.decide_and, ← filter_outcomes_arity name (h.nodup_arities name) hentry,
      ← filter_outcomes_name h, List.filter_filter, Bool.and_comm]
  either outcome _ := by
    obtain ⟨name, arity, result⟩ := outcome
    cases result with
    | ok form => exact .inl ⟨form, rfl, rfl⟩
    | error obstacle => exact .inr ⟨obstacle, rfl, rfl⟩
  arities := filter_outcomes_name h
  names := List.pairwise_map.2 (h.sorted.imp utf8_lt)
  order := pairwise_outcomes h
  forms := forms_eq h
  definition session name := by
    refine ⟨clausesOf_ne_nil h name, ?_⟩
    rw [filter_forms h, definition?]
    split <;> rfl
  session session := by rw [toForms_eq]
  change {front back name before after entry} hmacros := by
    obtain ⟨earlier, later, houtcomes⟩ := exists_outcomes name entry before after front back
    have hsame : table = ⟨front ++ (name, before ++ [entry] ++ after) :: back⟩ :=
      congrArg MacroTable.mk hmacros
    refine ⟨earlier, later, ?_, houtcomes⟩
    rw [hsame]
    exact houtcomes (some entry) fun other hother => by rw [Option.mem_some.1 hother]
  failing {front back name before after entry} hmacros hfails changed hchanged := by
    intro session session'
    have hsame : table = ⟨front ++ (name, before ++ [entry] ++ after) :: back⟩ :=
      congrArg MacroTable.mk hmacros
    rw [hsame, toForms_of_fails (List.forall_mem_singleton.2 hfails) front back session session]
    exact toForms_of_fails (fun other hother => hchanged other (Option.mem_toList.1 hother)) front
      back session' session

end MacroTable

namespace Header

/-- A name that is defined without an argument list, and with a parameter and a body that is no
expression. -/
def droppedSource : String :=
  "-define(M, ok).\n-define(M(X), X +).\n"

/-- The fixed arity comes first although it was defined later, and that it has no form leaves the
other clause as it is. -/
theorem translatedByEntry_dropped :
    ∃ header, ofText false "test.hrl" droppedSource = .ok header ∧
      header.macros.TranslatedByEntry ∧
      header.macros.outcomes.map (fun outcome =>
        (outcome.name, outcome.arity, outcome.result.isOk)) =
          [("M", .fixed 1, false), ("M", .noArgs, true)] := by
  have houtcomes : (ofText false "test.hrl" droppedSource).toOption.any (fun header =>
      header.macros.outcomes.map (fun outcome =>
        (outcome.name, outcome.arity, outcome.result.isOk)) =
          [("M", .fixed 1, false), ("M", .noArgs, true)]) = true := by
    decide +kernel
  cases hread : ofText false "test.hrl" droppedSource with
  | error =>
    rw [hread] at houtcomes
    cases houtcomes
  | ok header =>
    rw [hread] at houtcomes
    exact ⟨header, rfl, MacroTable.translatedByEntry (wellFormed_macros hread),
      of_decide_eq_true houtcomes⟩

end Header

end HeaderForms
