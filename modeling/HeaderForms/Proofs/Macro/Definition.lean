-- SUMMARY: Applying the definition that a macro is translated to.
import HeaderForms.Proofs.Header.Macros
import HeaderForms.Proofs.Macro.Template

/-!
# Definitions of macros

The definition of a macro has a clause for each arity that is translated, fixed arities first. Since
no arity comes twice, the clause that accepts some number of arguments is that of the entry with
this fixed arity, and the clause without an argument list stands in for an entry that is missing or
has no form.
-/

namespace HeaderForms

open Form

/-- The parameters of an entry of a macro table and the form of its body, if it has one. -/
def MacroTable.translation? (table : MacroTable) (name : String) (arity : MacroArity) :
    Option (List String × Form) :=
  match table.get? name arity with
  | some (.defined params body) => (MacroForm.bodyForm body).toOption.map fun form => (params, form)
  | _ => none

namespace MacroForm

/-- An entry that has a body. -/
abbrev Defined := MacroArity × List String × List Token

/-! ## Clauses -/

def translated? (entry : Defined) : Option (List String × Form) :=
  (bodyForm entry.2.2).toOption.map fun form => (entry.2.1, form)

def templatePattern (params : List String) : MacroArity → TemplatePattern
  | .noArgs => .any
  | .fixed _ => .exactly params

/-- The clause of an entry as it is read back. -/
def templateClause? (entry : Defined) : Option TemplateClause :=
  (translated? entry).map fun (params, form) =>
    ⟨templatePattern params entry.1, form.substitute (unquotes params)⟩

theorem ofForm?_pattern (params : List String) (arity : MacroArity) :
    TemplatePattern.ofForm? (pattern params arity) = some (templatePattern params arity) := by
  cases arity with
  | noArgs => rfl
  | fixed count =>
    have hsymbols : (params.map Form.symbol).mapM symbol? = some params := by
      induction params with
      | nil => rfl
      | cons param params ih => rw [List.map_cons, List.mapM_cons, symbol?, ih]; rfl
    have hparams : TemplatePattern.ofForm? (pattern params (.fixed count)) =
        .exactly <$> (params.map Form.symbol).mapM symbol? := rfl
    rw [hparams, hsymbols]
    rfl

/-- The backquote around a template stays. -/
theorem template_eq {params : List String} (h : "backquote" ∉ params) (form : Form) :
    template params form = backquote (form.substitute (unquotes params)) := by
  rw [template, backquote, call, unquotes_eq, substitute_list, ← unquotes_eq, List.map_cons,
    substitute_unquotes_symbol, if_neg h]
  rfl

theorem clauseOfForm_template (name : String) {arity : MacroArity} {params : List String}
    (h : "backquote" ∉ params) (form : Form) :
    Template.clauseOfForm name (.list [pattern params arity, template params form]) =
      .ok ⟨templatePattern params arity, form.substitute (unquotes params)⟩ := by
  have hclause : TemplateClause.ofForm? (.list [pattern params arity, template params form]) =
      some ⟨templatePattern params arity, form.substitute (unquotes params)⟩ := by
    rw [TemplateClause.ofForm?, template_eq h, ofForm?_pattern]
    rfl
  rw [Template.clauseOfForm, hclause]

theorem translated?_ok {arity : MacroArity} {params : List String} {body : List Token} {form : Form}
    (h : bodyForm body = .ok form) : translated? (arity, params, body) = some (params, form) := by
  rw [translated?, h]
  rfl

theorem translated?_error {arity : MacroArity} {params : List String} {body : List Token}
    {obstacle : Obstacle} (h : bodyForm body = .error obstacle) :
    translated? (arity, params, body) = none := by
  rw [translated?, h]
  rfl

theorem templateClause?_ok {arity : MacroArity} {params : List String} {body : List Token}
    {form : Form} (h : bodyForm body = .ok form) : templateClause? (arity, params, body) =
      some ⟨templatePattern params arity, form.substitute (unquotes params)⟩ := by
  rw [templateClause?, translated?_ok h]
  rfl

theorem templateClause?_error {arity : MacroArity} {params : List String} {body : List Token}
    {obstacle : Obstacle} (h : bodyForm body = .error obstacle) :
    templateClause? (arity, params, body) = none := by
  rw [templateClause?, translated?_error h]
  rfl

/-- The clauses that were kept are read back in their order. -/
theorem mapM_clauseOfForm {name : String} {entries : List Defined}
    (h : ∀ entry ∈ entries, "backquote" ∉ entry.2.1) :
    (clauses name entries).1.mapM (Template.clauseOfForm name) =
      .ok (entries.filterMap templateClause?) := by
  induction entries with
  | nil => rfl
  | cons entry entries ih =>
    obtain ⟨arity, params, body⟩ := entry
    have hrest := ih fun other hother => h other (List.mem_cons_of_mem _ hother)
    cases hbody : bodyForm body with
    | error obstacle =>
      rw [List.filterMap_cons_none (templateClause?_error hbody), ← hrest, clauses, clause, hbody]
      rfl
    | ok form =>
      have hforms : (clauses name ((arity, params, body) :: entries)).1 =
          .list [pattern params arity, template params form] :: (clauses name entries).1 := by
        rw [clauses, clause, hbody]
        rfl
      rw [List.filterMap_cons_some (templateClause?_ok hbody), hforms, List.mapM_cons, hrest,
        clauseOfForm_template name (h _ List.mem_cons_self)]
      rfl

theorem ofForm_definition {name : String} {entries : List Defined}
    (h : ∀ entry ∈ entries, "backquote" ∉ entry.2.1) :
    Template.ofForm (call "defmacro" (.symbol name :: (clauses name entries).1)) =
      .ok ⟨name, entries.filterMap templateClause?⟩ := by
  rw [call, Template.ofForm, if_pos (by rfl), mapM_clauseOfForm h]
  rfl

/-! ## Application -/

/-- Among entries with an arity each, those that accept one arity only, the entry with this arity
counts if it is translated. -/
theorem expandClauses_append (name : String) {args : List Form} {arity : MacroArity}
    {entries : List Defined} (hunique : entries.Pairwise fun one other => one.1 ≠ other.1)
    (hpattern : ∀ entry ∈ entries, (templatePattern entry.2.1 entry.1).bindings? args =
      if entry.1 = arity then some (entry.2.1.zip args) else none) (rest : List TemplateClause) :
    Template.expandClauses name args (entries.filterMap templateClause? ++ rest) =
      match (entries.find? (·.1 = arity)).bind translated? with
      | some (params, form) =>
        Template.fill (params.zip args) 1 (form.substitute (unquotes params))
      | none => Template.expandClauses name args rest := by
  induction entries with
  | nil => rfl
  | cons entry entries ih =>
    rw [List.pairwise_cons] at hunique
    have hrest := ih hunique.2 fun other hother => hpattern other (List.mem_cons_of_mem _ hother)
    have hentry := hpattern entry List.mem_cons_self
    obtain ⟨own, params, body⟩ := entry
    by_cases harity : own = arity
    -- No other entry has this arity, also where this one has no form.
    · have hothers : entries.find? (·.1 = arity) = none := by
        refine List.find?_eq_none.2 fun other hother => ?_
        rw [decide_eq_true_eq, ← harity]
        exact (hunique.1 other hother).symm
      rw [hothers] at hrest
      rw [if_pos harity] at hentry
      rw [List.find?_cons_of_pos (by simpa using harity), Option.bind_some]
      cases hbody : bodyForm body with
      | error obstacle =>
        rw [List.filterMap_cons_none (templateClause?_error hbody), translated?_error hbody, hrest]
        rfl
      | ok form =>
        rw [List.filterMap_cons_some (templateClause?_ok hbody), translated?_ok hbody,
          List.cons_append, Template.expandClauses, hentry]
    · rw [if_neg harity] at hentry
      rw [List.find?_cons_of_neg (by simpa using harity), ← hrest]
      cases hbody : bodyForm body with
      | error obstacle => rw [List.filterMap_cons_none (templateClause?_error hbody)]
      | ok form =>
        rw [List.filterMap_cons_some (templateClause?_ok hbody), List.cons_append,
          Template.expandClauses, hentry]

/-! ## Entries -/

def defined? (entry : MacroEntry) : Option Defined :=
  match entry.definition with
  | .defined params body => some (entry.arity, params, body)
  | _ => none

theorem definedEntries_eq (entries : List MacroEntry) :
    definedEntries entries = (entries.filterMap defined?).filter (·.1 ≠ .noArgs) ++
      (entries.filterMap defined?).filter (·.1 = .noArgs) :=
  rfl

theorem mem_of_mem_definedEntries {entries : List MacroEntry} {entry : Defined}
    (h : entry ∈ definedEntries entries) : entry ∈ entries.filterMap defined? := by
  rw [definedEntries_eq] at h
  rcases List.mem_append.1 h with h | h
  · exact (List.mem_filter.1 h).1
  · exact (List.mem_filter.1 h).1

theorem eq_of_defined? {entry : MacroEntry} {defined : Defined} (h : defined? entry = some defined) :
    entry = ⟨defined.1, .defined defined.2.1 defined.2.2⟩ := by
  obtain ⟨arity, definition⟩ := entry
  cases definition with
  | absent | predefined => cases h
  | defined params body =>
    cases h
    rfl

/-- Entries without a body do not hide the ones that have one. -/
theorem find?_defined {entries : List MacroEntry} (h : (entries.map (·.arity)).Nodup)
    (arity : MacroArity) :
    (entries.filterMap defined?).find? (·.1 = arity) =
      (entries.find? (·.arity = arity)).bind defined? := by
  induction entries with
  | nil => rfl
  | cons entry entries ih =>
    rw [List.map_cons, List.nodup_cons] at h
    have hrest := ih h.2
    by_cases harity : entry.arity = arity
    · have hothers : entries.find? (·.arity = arity) = none := by
        refine List.find?_eq_none.2 fun other hother heq => h.1 ?_
        rw [harity, ← of_decide_eq_true heq]
        exact List.mem_map_of_mem hother
      rw [hothers] at hrest
      rw [List.find?_cons_of_pos (by simpa using harity), Option.bind_some]
      cases hdefined : defined? entry with
      | none =>
        rw [List.filterMap_cons_none hdefined, hrest]
        rfl
      | some defined =>
        rw [eq_of_defined? hdefined] at harity
        rw [List.filterMap_cons_some hdefined, List.find?_cons_of_pos (by simpa using harity)]
    · rw [List.find?_cons_of_neg (by simpa using harity), ← hrest]
      cases hdefined : defined? entry with
      | none => rw [List.filterMap_cons_none hdefined]
      | some defined =>
        rw [eq_of_defined? hdefined] at harity
        rw [List.filterMap_cons_some hdefined, List.find?_cons_of_neg (by simpa using harity)]

theorem find?_filter_arity {entries : List Defined} {keep : Defined → Bool} {arity : MacroArity}
    (h : ∀ entry : Defined, entry.1 = arity → keep entry = true) :
    (entries.filter keep).find? (·.1 = arity) = entries.find? (·.1 = arity) := by
  rw [List.find?_filter]
  congr 1
  funext entry
  by_cases harity : entry.1 = arity
  · simp [h entry harity]
  · simp [harity]

theorem wellFormed_of_mem {entries : List MacroEntry} (h : MacroEntry.AllWellFormed entries)
    {defined : Defined} (hmem : defined ∈ entries.filterMap defined?) :
    MacroEntry.WellFormed ⟨defined.1, .defined defined.2.1 defined.2.2⟩ := by
  obtain ⟨entry, hentry, hdefined⟩ := List.mem_filterMap.1 hmem
  rw [← eq_of_defined? hdefined]
  exact h.each entry hentry

/-- No parameter has the name that heads a backquoted form. -/
theorem backquote_not_mem {entries : List MacroEntry} (h : MacroEntry.AllWellFormed entries) :
    ∀ entry ∈ definedEntries entries, "backquote" ∉ entry.2.1 := by
  intro entry hentry hbackquote
  have hvariables := (wellFormed_of_mem h (mem_of_mem_definedEntries hentry) _ _ rfl).1
  obtain ⟨c, rest, hname, hc⟩ := hvariables "backquote" hbackquote
  cases hname
  revert hc
  decide

theorem pairwise_defined {entries : List MacroEntry} (h : MacroEntry.AllWellFormed entries) :
    (entries.filterMap defined?).Pairwise fun one other => one.1 ≠ other.1 := by
  refine List.pairwise_filterMap.2 ((List.pairwise_map.1 h.arities).imp ?_)
  intro entry entry' hne one hone other hother
  rw [eq_of_defined? hone, eq_of_defined? hother] at hne
  exact hne

/-- The translation of the entry with an arity. -/
def translationOf (entries : List MacroEntry) (arity : MacroArity) : Option (List String × Form) :=
  ((entries.filterMap defined?).find? (·.1 = arity)).bind translated?

/-- A macro that is applied takes the entry with as many parameters as there are arguments, or else
the one without an argument list. -/
theorem expandClauses_entries (name : String) (args : List Form) {entries : List MacroEntry}
    (h : MacroEntry.AllWellFormed entries) :
    Template.expandClauses name args ((definedEntries entries).filterMap templateClause?) =
      match translationOf entries (.fixed args.length) with
      | some (params, form) =>
        Template.fill (params.zip args) 1 (form.substitute (unquotes params))
      | none =>
        match translationOf entries .noArgs with
        | some (params, form) =>
          Template.fill (params.zip args) 1 (form.substitute (unquotes params))
        | none => .error (.noMatchingClause name args.length) := by
  have hfixed : ∀ entry ∈ (entries.filterMap defined?).filter (·.1 ≠ .noArgs),
      (templatePattern entry.2.1 entry.1).bindings? args =
        if entry.1 = .fixed args.length then some (entry.2.1.zip args) else none := by
    intro entry hentry
    obtain ⟨hmem, hne⟩ := List.mem_filter.1 hentry
    have hwell := (wellFormed_of_mem h hmem _ _ rfl).2
    obtain ⟨arity, params, body⟩ := entry
    cases arity with
    | noArgs => simp at hne
    | fixed count =>
      have hlength : params.length = count := hwell
      simp only [templatePattern, TemplatePattern.bindings?, hlength, MacroArity.fixed.injEq]
  have hnoArgs : ∀ entry ∈ (entries.filterMap defined?).filter (·.1 = .noArgs),
      (templatePattern entry.2.1 entry.1).bindings? args =
        if entry.1 = .noArgs then some (entry.2.1.zip args) else none := by
    intro entry hentry
    obtain ⟨hmem, heq⟩ := List.mem_filter.1 hentry
    have hwell := (wellFormed_of_mem h hmem _ _ rfl).2
    obtain ⟨arity, params, body⟩ := entry
    cases of_decide_eq_true heq
    cases (hwell : params = [])
    rfl
  have hpairwise := pairwise_defined h
  -- Behind the clauses of fixed arity stands at most one clause, and it accepts any arguments.
  have hlast := expandClauses_append name (hpairwise.filter _) hnoArgs []
  rw [List.append_nil, find?_filter_arity (by simp)] at hlast
  rw [definedEntries_eq, List.filterMap_append,
    expandClauses_append name (hpairwise.filter _) hfixed, hlast, find?_filter_arity (by simp)]
  rfl

theorem wellFormed_of_translationOf {entries : List MacroEntry}
    (h : MacroEntry.AllWellFormed entries) {arity : MacroArity} {params : List String} {form : Form}
    (htranslation : translationOf entries arity = some (params, form)) :
    (∀ param ∈ params, IsVariableName param) ∧ arity.Fits params := by
  obtain ⟨defined, hfind, htranslated⟩ := Option.bind_eq_some_iff.1 htranslation
  obtain ⟨body, -, hpair⟩ := Option.map_eq_some_iff.1 htranslated
  cases hpair
  have harity : defined.1 = arity := by simpa using List.find?_some hfind
  rw [← harity]
  exact wellFormed_of_mem h (List.mem_of_find?_eq_some hfind) _ _ rfl

theorem fits_of_translationOf {entries : List MacroEntry} (h : MacroEntry.AllWellFormed entries)
    {arity : MacroArity} {params : List String} {form : Form}
    (htranslation : translationOf entries arity = some (params, form)) : arity.Fits params :=
  (wellFormed_of_translationOf h htranslation).2

end MacroForm

/-! ## Tables -/

open MacroForm

namespace MacroTable

theorem translation?_eq {table : MacroTable} (h : table.WellFormed) {name : String}
    {entries : List MacroEntry} (hmem : (name, entries) ∈ table.macros) (arity : MacroArity) :
    table.translation? name arity = translationOf entries arity := by
  rw [translation?, get?, h.entries_eq hmem, translationOf,
    find?_defined (h.entries name entries hmem).arities]
  cases entries.find? (·.arity = arity) with
  | none => rfl
  | some entry =>
    obtain ⟨own, definition⟩ := entry
    cases definition with
    | absent | predefined | defined => rfl

/-- A definition is made of the entries of a name. -/
theorem exists_of_mem_toForms {table : MacroTable} {session : Session} {form : Form}
    (hform : form ∈ (table.toForms session).1) :
    ∃ name entries, (name, entries) ∈ table.macros ∧
      form = call "defmacro" (.symbol name :: (clauses name (definedEntries entries)).1) := by
  obtain ⟨definition, hdefinition, hsome⟩ := List.mem_filterMap.1 hform
  obtain ⟨⟨name, entries⟩, hmem, rfl⟩ := List.mem_map.1 hdefinition
  have hshape : definition? name (clauses name (definedEntries entries)).1 = some form := hsome
  unfold definition? at hshape
  split at hshape
  case isTrue => cases hshape
  case isFalse =>
    cases hshape
    exact ⟨name, entries, hmem, rfl⟩

theorem eq_of_mem_toForms {table : MacroTable} {session : Session} {form : Form}
    (hform : form ∈ (table.toForms session).1) {name : String}
    (hname : Template.isDefinitionOf name form = true) :
    ∃ entries, (name, entries) ∈ table.macros ∧
      form = call "defmacro" (.symbol name :: (clauses name (definedEntries entries)).1) := by
  obtain ⟨other, entries, hmem, rfl⟩ := exists_of_mem_toForms hform
  have hother : other = name := by simpa [call, Template.isDefinitionOf, isSymbol] using hname
  exact ⟨entries, hother ▸ hmem, by rw [hother]⟩

end MacroTable

/-- Applying a template to arguments means applying the macro of a table. -/
structure Template.Applies (template : Template) (table : MacroTable) (name : String)
    (args : List Form) : Prop where
  /-- The entry with as many parameters as there are arguments comes first. -/
  fixed : ∀ params body, table.translation? name (.fixed args.length) = some (params, body) →
    template.expand args = fill (params.zip args) 1 (body.substitute (unquotes params)) ∧
      (params.Nodup → body.QuasiFree →
        template.expand args = .ok (body.substitute (symbolPairs (params.zip args))))
  noArgs : table.translation? name (.fixed args.length) = none →
    ∀ params body, table.translation? name .noArgs = some (params, body) →
      template.expand args = fill [] 1 body ∧ (body.QuasiFree → template.expand args = .ok body)
  missing : table.translation? name (.fixed args.length) = none →
    table.translation? name .noArgs = none →
      template.expand args = .error (.noMatchingClause name args.length)

theorem Template.applies_of_entries {table : MacroTable} (h : table.WellFormed) {name : String}
    {entries : List MacroEntry} (hmem : (name, entries) ∈ table.macros) (args : List Form) :
    (Template.mk name ((definedEntries entries).filterMap templateClause?)).Applies table name
      args := by
  have hwell := h.entries name entries hmem
  have hexpand := expandClauses_entries name args hwell
  constructor
  case fixed =>
    intro params body hfixed
    rw [MacroTable.translation?_eq h hmem] at hfixed
    rw [hfixed] at hexpand
    refine ⟨hexpand, fun hparams hfree => ?_⟩
    exact hexpand.trans (fill_unquoted hparams (fits_of_translationOf hwell hfixed) hfree)
  case noArgs =>
    intro hfixed params body hnoArgs
    rw [MacroTable.translation?_eq h hmem] at hfixed hnoArgs
    cases (fits_of_translationOf hwell hnoArgs : params = [])
    have hbody : body.substitute (unquotes []) = body := substitute_nil body
    rw [hfixed, hnoArgs] at hexpand
    have hfill := hexpand
    dsimp only at hfill
    rw [hbody] at hfill
    refine ⟨hfill, fun hfree => ?_⟩
    have hvalue := hexpand.trans (@fill_unquoted [] [] body .nil rfl hfree)
    have hsame : body.substitute (symbolPairs []) = body := substitute_nil body
    rw [← hsame]
    exact hvalue
  case missing =>
    intro hfixed hnoArgs
    rw [MacroTable.translation?_eq h hmem] at hfixed hnoArgs
    rw [hfixed, hnoArgs] at hexpand
    exact hexpand

namespace Header

/-- Every definition that a header is translated to can be applied, and means its macro. -/
theorem applies_of_mem_toForms {legacy : Bool} {file source : String} {header : Header}
    (hread : ofText legacy file source = .ok header) {session : Session} {form : Form}
    (hform : form ∈ (header.macros.toForms session).1) {name : String}
    (hname : Template.isDefinitionOf name form = true) :
    ∃ template, Template.ofForm form = .ok template ∧
      ∀ args, template.Applies header.macros name args := by
  have hwell := wellFormed_macros hread
  obtain ⟨entries, hmem, rfl⟩ := MacroTable.eq_of_mem_toForms hform hname
  exact ⟨_, ofForm_definition (backquote_not_mem (hwell.entries name entries hmem)),
    Template.applies_of_entries hwell hmem⟩

/-- A name that is defined with a parameter and without an argument list. -/
def pairSource : String :=
  "-define(PAIR(A), {A, A}).\n-define(PAIR, none).\n"

/-- What the definitions of that name are translated to. -/
def hasPair (header : Header) : Bool :=
  match header.macros.translation? "PAIR" (.fixed 1), header.macros.translation? "PAIR" (.fixed 0),
      header.macros.translation? "PAIR" .noArgs with
  | some (["A"], .list [.symbol "tuple", .symbol "A", .symbol "A"]), none,
      some ([], .list [.symbol "quote", .symbol "none"]) => true
  | _, _, _ => false

/-- An argument that looks like an unquote of the parameter stays as it is, and the definition
without an argument list stands in where the number of arguments fits no other. -/
theorem applies_pair :
    ∃ header, ofText false "test.hrl" pairSource = .ok header ∧
      ∃ form ∈ (header.macros.toForms .initial).1, Template.isDefinitionOf "PAIR" form = true ∧
        ∃ template, Template.ofForm form = .ok template ∧
          template.expand [comma (.symbol "A")] =
            .ok (call "tuple" [comma (.symbol "A"), comma (.symbol "A")]) ∧
          template.expand [] = .ok (quote (.symbol "none")) := by
  have htables : (ofText false "test.hrl" pairSource).toOption.any (fun header =>
      (header.macros.toForms .initial).1.any (Template.isDefinitionOf "PAIR") &&
        hasPair header) = true := by
    decide +kernel
  cases hread : ofText false "test.hrl" pairSource with
  | error =>
    rw [hread] at htables
    cases htables
  | ok header =>
    rw [hread] at htables
    obtain ⟨hforms, htranslations⟩ := Bool.and_eq_true_iff.1 htables
    obtain ⟨form, hform, hname⟩ := List.any_eq_true.1 hforms
    obtain ⟨template, htemplate, happlies⟩ := applies_of_mem_toForms hread hform hname
    refine ⟨header, rfl, form, hform, hname, template, htemplate, ?_⟩
    unfold hasPair at htranslations
    split at htranslations
    case h_2 => cases htranslations
    case h_1 hone hzero hnone =>
      constructor
      · refine ((happlies [comma (.symbol "A")]).fixed _ _ hone).2 (by decide) ?_
        intro head inner hsub
        simp at hsub
      · refine ((happlies []).noArgs hzero _ _ hnone).2 ?_
        intro head inner hsub
        obtain ⟨rfl, -⟩ : head = "quote" ∧ inner = .symbol "none" := by simpa using hsub
        decide

end Header

end HeaderForms
