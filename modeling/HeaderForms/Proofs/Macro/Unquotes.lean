-- SUMMARY: A macro can be applied exactly when its body unquotes nothing of its own.
import HeaderForms.Proofs.Macro.Definition

/-!
# Unquotes in macro bodies

The template of a macro body has an unquote in place of every parameter, and whatever a clause
accepts binds all of its parameters. A body may also hold lists that read as unquotes although no
parameter stands there, since a call of a function `comma` becomes one. What such a list unquotes is
bound by nothing, so a macro can be applied exactly when its body has none of them, or has each of
them inside a backquote of its own.
-/

namespace HeaderForms

open Form

namespace Form

mutual

/-- Whether something is unquoted or spliced in the form that `level` backquotes of its own are
around. -/
def hasUnquote (level : Nat) : Form → Bool
  | .list [.symbol "comma", inner] =>
    match level with
    | 0 => true
    | level + 1 => hasUnquote level inner
  | .list [.symbol "backquote", inner] => hasUnquote (level + 1) inner
  | .list items => anyUnquote level items
  | .tuple items => anyUnquote level items
  | .dotted items tail => anyUnquote level items || hasUnquote level tail
  | _ => false

def anyUnquote (level : Nat) : List Form → Bool
  | [] => false
  | item :: items =>
    (level = 0 && (item.wrapped? "comma-at").isSome) || hasUnquote level item ||
      anyUnquote level items

end

theorem hasUnquote_list {level : Nat} {items : List Form}
    (hcomma : ∀ inner, items ≠ [.symbol "comma", inner])
    (hbackquote : ∀ inner, items ≠ [.symbol "backquote", inner]) :
    (list items).hasUnquote level = anyUnquote level items := by
  rw [hasUnquote]
  · exact hcomma
  · exact hbackquote

end Form

namespace MacroForm

variable {params : List String}

/-- No parameter heads an unquote, a splice or a backquote. -/
def AvoidsHeads (params : List String) : Prop :=
  ∀ head ∈ quasiHeads, head ∉ params

theorem map_substitute_ne {items : List Form} {head : String}
    (h : ¬ ∃ inner, items = [.symbol head, inner]) (inner : Form) :
    items.map (substitute (unquotes params)) ≠ [.symbol head, inner] := by
  intro heq
  obtain ⟨before, hitems, -⟩ := exists_of_map_substitute heq
  exact h ⟨before, hitems⟩

theorem substitute_wrap (hheads : AvoidsHeads params) {head : String} (hhead : head ∈ quasiHeads)
    (inner : Form) : (Form.list [.symbol head, inner]).substitute (unquotes params) =
      .list [.symbol head, inner.substitute (unquotes params)] := by
  have hsymbol : (Form.symbol head).substitute (unquotes params) = .symbol head := by
    rw [substitute_unquotes_symbol, if_neg (hheads head hhead)]
  rw [unquotes_eq, substitute_list, ← unquotes_eq, List.map_cons, List.map_singleton, hsymbol]

/-- Unquoting the parameters keeps what a splice or a backquote wraps in its place. -/
theorem wrapped?_substitute_unquotes (hheads : AvoidsHeads params) {head : String}
    (hhead : head ∈ quasiHeads) (hcomma : head ≠ "comma") (form : Form) :
    (form.substitute (unquotes params)).wrapped? head =
      (form.wrapped? head).map (substitute (unquotes params)) := by
  cases form with
  | symbol name =>
    rw [substitute_unquotes_symbol]
    split
    case isTrue => exact if_neg hcomma.symm
    case isFalse => rfl
  | list items =>
    cases hwrapped : (Form.list items).wrapped? head with
    | some inner =>
      rw [eq_of_wrapped? hwrapped, substitute_wrap hheads hhead, wrapped?_wrap]
      rfl
    | none =>
      rw [Option.map_none, Option.eq_none_iff_forall_ne_some]
      intro inner hinner
      rw [unquotes_eq, substitute_list, ← unquotes_eq] at hinner
      injection eq_of_wrapped? hinner with heq
      obtain ⟨before, rfl, -⟩ := exists_of_map_substitute heq
      rw [wrapped?_wrap] at hwrapped
      cases hwrapped
  | dotted items tail =>
    rw [unquotes_eq, substitute_dotted]
    rfl
  | tuple items =>
    rw [unquotes_eq, substitute_tuple]
    rfl
  | integer | float | string | binary =>
    rw [unquotes_eq, substitute_literal]
    · rfl
    · trivial

end MacroForm

namespace Template

open MacroForm

/-! ## Filling -/

/-- The result is an error if something is unquoted, which is then unbound, and a value if not. -/
def Unbinds {α : Type} (unquoted : Bool) : Except ExpandError α → Prop
  | .ok _ => unquoted = false
  | .error error => unquoted = true ∧ ∃ name, error = .unbound name

section

variable {α β : Type} {unquoted behind : Bool} {result : Except ExpandError α}

theorem unbinds_ok {value : α} : Unbinds false (.ok value : Except ExpandError α) :=
  rfl

theorem unbinds_unbound {name : Form} :
    Unbinds true (.error (.unbound name) : Except ExpandError α) :=
  ⟨rfl, name, rfl⟩

theorem Unbinds.bind {next : α → Except ExpandError β} (h : Unbinds unquoted result)
    (hnext : ∀ value, Unbinds behind (next value)) :
    Unbinds (unquoted || behind) (result >>= next) := by
  cases result with
  | ok value =>
    rw [(h : unquoted = false), Bool.false_or]
    exact hnext value
  | error error =>
    obtain ⟨rfl, hname⟩ := h
    exact ⟨Bool.true_or _, hname⟩

theorem Unbinds.map {f : α → β} (h : Unbinds unquoted result) :
    Unbinds unquoted (f <$> result) := by
  cases result with
  | ok value => exact h
  | error error => exact h

theorem Unbinds.exists_ok_iff (h : Unbinds unquoted result) :
    (∃ value, result = .ok value) ↔ unquoted = false := by
  cases result with
  | ok value => exact ⟨fun _ => h, fun _ => ⟨value, rfl⟩⟩
  | error error =>
    rw [h.1]
    constructor
    · rintro ⟨value, hvalue⟩
      cases hvalue
    · intro hfalse
      cases hfalse

theorem Unbinds.eq_unbound {error : ExpandError} (h : Unbinds unquoted result)
    (herror : result = .error error) : ∃ inner, error = .unbound inner := by
  rw [herror] at h
  exact h.2

end

variable {params : List String} {args : List Form}

theorem exists_lookup_param (hlength : params.length = args.length) {name : String}
    (hname : name ∈ params) : ∃ value, lookup (params.zip args) (.symbol name) = .ok value := by
  have hnames : (params.zip args).reverse.map Prod.fst = params.reverse := by
    rw [List.map_reverse, List.map_fst_zip (Nat.le_of_eq hlength)]
  obtain ⟨value, hvalue⟩ := exists_lookup (hnames.symm ▸ List.mem_reverse.2 hname)
  exact ⟨value, by rw [lookup, symbol?, Option.bind_some, hvalue]⟩

/-- What a body unquotes is no parameter any more, and so it is bound to nothing. -/
theorem lookup_substitute (hlength : params.length = args.length) (inner : Form) :
    lookup (params.zip args) (inner.substitute (unquotes params)) =
      .error (.unbound (inner.substitute (unquotes params))) := by
  have hnames : (params.zip args).reverse.map Prod.fst = params.reverse := by
    rw [List.map_reverse, List.map_fst_zip (Nat.le_of_eq hlength)]
  cases hsymbol : (inner.substitute (unquotes params)).symbol? with
  | none => rw [lookup, hsymbol, Option.bind_none]
  | some name =>
    have hname := eq_symbol_of_substitute (eq_of_symbol? hsymbol)
    rw [hname, substitute_unquotes_symbol] at hsymbol ⊢
    split at hsymbol
    case isTrue => cases hsymbol
    case isFalse hnot =>
      rw [if_neg hnot, lookup, symbol?, Option.bind_some, lookup_eq_none]
      rwa [hnames, List.mem_reverse]

theorem unbinds_fillAll (hheads : AvoidsHeads params) (hlength : params.length = args.length)
    {level : Nat} {items : List Form}
    (h : ∀ item ∈ items, Unbinds (item.hasUnquote level)
      (fill (params.zip args) (level + 1) (item.substitute (unquotes params)))) :
    Unbinds (anyUnquote level items)
      (fillAll (params.zip args) (level + 1) (items.map (substitute (unquotes params)))) := by
  induction items with
  | nil => exact unbinds_ok
  | cons item items ih =>
    obtain ⟨hitem, hitems⟩ := List.forall_mem_cons.1 h
    have hbehind := ih hitems
    have hkept : Unbinds (item.hasUnquote level || anyUnquote level items) (do
        let filled ← fill (params.zip args) (level + 1) (item.substitute (unquotes params))
        return filled :: (← fillAll (params.zip args) (level + 1)
          (items.map (substitute (unquotes params))))) :=
      hitem.bind fun filled => hbehind.map
    have hwrapped : (item.substitute (unquotes params)).wrapped? "comma-at" =
        (item.wrapped? "comma-at").map (substitute (unquotes params)) :=
      wrapped?_substitute_unquotes hheads (by decide) (by decide) item
    rw [List.map_cons, anyUnquote]
    cases hsplice : item.wrapped? "comma-at" with
    | none =>
      rw [hsplice] at hwrapped
      rw [Option.isSome_none, Bool.and_false, Bool.false_or, fillAll_kept (.inl hwrapped)]
      exact hkept
    | some inner =>
      rw [hsplice] at hwrapped
      cases level with
      | zero =>
        rw [fillAll_unbound hwrapped (lookup_substitute hlength inner)]
        exact unbinds_unbound
      | succ level =>
        rw [fillAll_kept (.inr (by omega))]
        exact hkept

/-- Filling the template of a body fails exactly where the body unquotes something itself. -/
theorem unbinds_fill (hheads : AvoidsHeads params) (hlength : params.length = args.length)
    (form : Form) (level : Nat) : Unbinds (form.hasUnquote level)
      (fill (params.zip args) (level + 1) (form.substitute (unquotes params))) := by
  induction form using Form.induction generalizing level with
  | symbol name =>
    rw [substitute_unquotes_symbol]
    split
    case isTrue hname =>
      rw [comma, call, fill]
      cases level with
      | zero =>
        obtain ⟨value, hvalue⟩ := exists_lookup_param hlength hname
        rw [if_neg (by decide), hvalue]
        exact unbinds_ok
      | succ level =>
        rw [if_pos (by omega), fill_symbol]
        exact unbinds_ok
    case isFalse =>
      rw [fill_symbol]
      exact unbinds_ok
  | integer | float | string | binary =>
    rw [unquotes_eq, substitute_literal, fill_literal]
    · exact unbinds_ok
    all_goals trivial
  | list items ih =>
    by_cases hcomma : ∃ inner, items = [.symbol "comma", inner]
    · obtain ⟨inner, rfl⟩ := hcomma
      rw [substitute_wrap hheads (by decide), fill]
      cases level with
      | zero =>
        rw [if_neg (by decide), lookup_substitute hlength]
        exact unbinds_unbound
      | succ level =>
        rw [if_pos (by omega)]
        exact (ih inner (by simp) level).map
    by_cases hbackquote : ∃ inner, items = [.symbol "backquote", inner]
    · obtain ⟨inner, rfl⟩ := hbackquote
      rw [substitute_wrap hheads (by decide), fill]
      exact (ih inner (by simp) (level + 1)).map
    have hunquote : (Form.list items).hasUnquote level = anyUnquote level items :=
      hasUnquote_list (fun inner heq => hcomma ⟨inner, heq⟩)
        fun inner heq => hbackquote ⟨inner, heq⟩
    rw [unquotes_eq, substitute_list, ← unquotes_eq, hunquote,
      fill_list (map_substitute_ne hcomma) (map_substitute_ne hbackquote)]
    exact (unbinds_fillAll hheads hlength fun item hitem => ih item hitem level).map
  | dotted items tail ih ihTail =>
    rw [unquotes_eq, substitute_dotted, ← unquotes_eq, fill, hasUnquote]
    refine (unbinds_fillAll hheads hlength fun item hitem => ih item hitem level).bind fun _ => ?_
    exact (ihTail level).map
  | tuple items ih =>
    rw [unquotes_eq, substitute_tuple, ← unquotes_eq, fill, hasUnquote]
    exact (unbinds_fillAll hheads hlength fun item hitem => ih item hitem level).map

/-! ## Application -/

/-- Whether some clause accepts the arguments. -/
def accepts (template : Template) (args : List Form) : Bool :=
  template.clauses.any fun clause => (clause.pattern.bindings? args).isSome

end Template

namespace MacroForm

theorem avoidsHeads_of_variables {params : List String}
    (h : ∀ param ∈ params, IsVariableName param) : AvoidsHeads params := by
  intro head hhead hparam
  obtain ⟨c, rest, hname, hc⟩ := h head hparam
  simp only [quasiHeads, List.mem_cons, List.not_mem_nil, or_false] at hhead
  rcases hhead with rfl | rfl | rfl
  all_goals
    cases hname
    revert hc
    decide

/-- The translation that a macro is applied with to `count` arguments. -/
def appliedTranslation (entries : List MacroEntry) (count : Nat) : Option (List String × Form) :=
  (translationOf entries (.fixed count)).or (translationOf entries .noArgs)

theorem find?_of_mem {entries : List Defined}
    (h : entries.Pairwise fun one other => one.1 ≠ other.1) {entry : Defined}
    (hmem : entry ∈ entries) : entries.find? (·.1 = entry.1) = some entry := by
  induction entries with
  | nil => cases hmem
  | cons first entries ih =>
    rw [List.pairwise_cons] at h
    rcases List.mem_cons.1 hmem with rfl | hmem
    · exact List.find?_cons_of_pos (by simp)
    · rw [List.find?_cons_of_neg (by simpa using h.1 entry hmem)]
      exact ih h.2 hmem

/-- Where a clause accepts the arguments, an entry for their number is translated, or the one
without an argument list is. -/
theorem exists_appliedTranslation {entries : List MacroEntry}
    (h : MacroEntry.AllWellFormed entries) {args : List Form} {clause : TemplateClause}
    (hclause : clause ∈ (definedEntries entries).filterMap templateClause?)
    (haccepts : (clause.pattern.bindings? args).isSome) :
    ∃ params form, appliedTranslation entries args.length = some (params, form) := by
  obtain ⟨⟨arity, params, body⟩, hdefined, hsome⟩ := List.mem_filterMap.1 hclause
  obtain ⟨⟨own, form⟩, htranslated, rfl⟩ := Option.map_eq_some_iff.1 hsome
  have hmem := mem_of_mem_definedEntries hdefined
  have htranslation : translationOf entries arity = some (own, form) := by
    rw [translationOf, find?_of_mem (pairwise_defined h) hmem]
    exact htranslated
  have hfits := fits_of_translationOf h htranslation
  cases arity with
  | noArgs =>
    rw [appliedTranslation, htranslation]
    cases translationOf entries (.fixed args.length) with
    | none => exact ⟨own, form, rfl⟩
    | some found => exact ⟨found.1, found.2, rfl⟩
  | fixed count =>
    have hlength : own.length = args.length := by
      by_contra hne
      have hbindings : (TemplatePattern.bindings? args (.exactly own)).isSome := haccepts
      rw [TemplatePattern.bindings?, if_neg hne] at hbindings
      cases hbindings
    have hcount : args.length = count := hlength.symm.trans hfits
    exact ⟨own, form, by rw [appliedTranslation, hcount, htranslation]; rfl⟩

/-- Applying a macro fails exactly where the body that is taken unquotes something itself. -/
theorem unbinds_expandClauses (name : String) (args : List Form) {entries : List MacroEntry}
    (h : MacroEntry.AllWellFormed entries) {params : List String} {form : Form}
    (happlied : appliedTranslation entries args.length = some (params, form)) :
    Template.Unbinds (form.hasUnquote 0) (Template.expandClauses name args
      ((definedEntries entries).filterMap templateClause?)) := by
  rw [expandClauses_entries name args h]
  cases hfixed : translationOf entries (.fixed args.length) with
  | some found =>
    rw [appliedTranslation, hfixed] at happlied
    cases happlied
    obtain ⟨hvariables, hlength⟩ := wellFormed_of_translationOf h hfixed
    exact Template.unbinds_fill (avoidsHeads_of_variables hvariables) hlength form 0
  | none =>
    rw [appliedTranslation, hfixed, Option.none_or] at happlied
    rw [happlied]
    -- Nothing is bound, whatever the arguments are.
    cases (fits_of_translationOf h happlied : params = [])
    exact @Template.unbinds_fill [] [] (fun _ _ => List.not_mem_nil) rfl form 0

end MacroForm

open MacroForm

/-- The translation of a name that is applied to `count` arguments: that of the entry with as many
parameters, or else that of the entry without an argument list. -/
def MacroTable.appliedTranslation? (table : MacroTable) (name : String) (count : Nat) :
    Option (List String × Form) :=
  (table.translation? name (.fixed count)).or (table.translation? name .noArgs)

namespace Header

/-- Every definition that a header is translated to can be applied to whatever one of its clauses
accepts, save where the body unquotes something itself. What it unquotes is then unbound. -/
theorem expand_of_mem_toForms {legacy : Bool} {file source : String} {header : Header}
    (hread : ofText legacy file source = .ok header) {session : Session} {form : Form}
    (hform : form ∈ (header.macros.toForms session).1) :
    ∃ template, Template.ofForm form = .ok template ∧ ∀ args, template.accepts args = true →
      ∃ params body,
        header.macros.appliedTranslation? template.name args.length = some (params, body) ∧
        ((∃ expansion, template.expand args = .ok expansion) ↔ body.hasUnquote 0 = false) ∧
        ∀ error, template.expand args = .error error → ∃ inner, error = .unbound inner := by
  have hwell := wellFormed_macros hread
  obtain ⟨name, entries, hmem, rfl⟩ := MacroTable.exists_of_mem_toForms hform
  have hentries := hwell.entries name entries hmem
  refine ⟨_, ofForm_definition (backquote_not_mem hentries), fun args haccepts => ?_⟩
  obtain ⟨clause, hclause, hbindings⟩ := List.any_eq_true.1 haccepts
  obtain ⟨params, body, happlied⟩ := exists_appliedTranslation hentries hclause hbindings
  have hunbinds := unbinds_expandClauses name args hentries happlied
  refine ⟨params, body, ?_, hunbinds.exists_ok_iff, fun error herror => hunbinds.eq_unbound herror⟩
  rw [MacroTable.appliedTranslation?, MacroTable.translation?_eq hwell hmem,
    MacroTable.translation?_eq hwell hmem]
  exact happlied

/-- A macro whose body has an unquote inside a backquote of its own. -/
def nestedSource : String :=
  "-define(NESTED(X), backquote(comma(X))).\n"

/-- Whether the definition of that macro accepts one argument, and its body unquotes nothing. -/
def hasNested (header : Header) : Bool :=
  (header.macros.toForms .initial).1.any (fun form =>
      (Template.ofForm form).toOption.any fun template =>
        template.name = "NESTED" && template.accepts [.integer 1]) &&
    (header.macros.appliedTranslation? "NESTED" 1).all fun (_, body) => !body.hasUnquote 0

/-- Inside the backquote of the body the parameter is kept as an unquote of itself. -/
theorem expand_nested :
    ∃ header, ofText false "test.hrl" nestedSource = .ok header ∧
      ∃ form ∈ (header.macros.toForms .initial).1, ∃ template,
        Template.ofForm form = .ok template ∧ template.name = "NESTED" ∧
          ∃ expansion, template.expand [.integer 1] = .ok expansion := by
  have hnested : (ofText false "test.hrl" nestedSource).toOption.any hasNested = true := by
    decide +kernel
  cases hread : ofText false "test.hrl" nestedSource with
  | error =>
    rw [hread] at hnested
    cases hnested
  | ok header =>
    rw [hread] at hnested
    obtain ⟨hforms, hkept⟩ := Bool.and_eq_true_iff.1 hnested
    obtain ⟨form, hform, hsome⟩ := List.any_eq_true.1 hforms
    obtain ⟨template, htemplate, hexpand⟩ := expand_of_mem_toForms hread hform
    rw [htemplate] at hsome
    obtain ⟨hname, haccepts⟩ := Bool.and_eq_true_iff.1 hsome
    rw [decide_eq_true_eq] at hname
    obtain ⟨params, body, happlied, hok, -⟩ := hexpand [.integer 1] haccepts
    have hone : header.macros.appliedTranslation? "NESTED" 1 = some (params, body) :=
      hname ▸ happlied
    rw [hone] at hkept
    refine ⟨header, rfl, form, hform, template, htemplate, hname, hok.2 ?_⟩
    simpa using hkept

/-- A macro whose body calls a function `comma`. -/
def commaSource : String :=
  "-define(M(X), comma(X)).\n"

/-- Whether some definition of the header accepts one argument and cannot be applied to it. -/
def hasFailing (header : Header) : Bool :=
  (header.macros.toForms .initial).1.any fun form =>
    (Template.ofForm form).toOption.any fun template =>
      template.accepts [.integer 1] && !(template.expand [.integer 1]).isOk

theorem not_expand_comma :
    ¬ ∀ (source : String) (header : Header), ofText false "test.hrl" source = .ok header →
      ∀ form ∈ (header.macros.toForms .initial).1, ∀ template, Template.ofForm form = .ok template →
        ∀ args, template.accepts args = true →
          ∃ expansion, template.expand args = .ok expansion := by
  intro hall
  have hfailing : (ofText false "test.hrl" commaSource).toOption.any hasFailing = true := by
    decide +kernel
  cases hread : ofText false "test.hrl" commaSource with
  | error =>
    rw [hread] at hfailing
    cases hfailing
  | ok header =>
    rw [hread] at hfailing
    obtain ⟨form, hform, hsome⟩ := List.any_eq_true.1 hfailing
    cases htemplate : Template.ofForm form with
    | error =>
      rw [htemplate] at hsome
      cases hsome
    | ok template =>
      rw [htemplate] at hsome
      obtain ⟨haccepts, hfails⟩ := Bool.and_eq_true_iff.1 hsome
      obtain ⟨expansion, hok⟩ := hall _ header hread form hform template htemplate _ haccepts
      rw [hok] at hfails
      cases hfails

end Header

end HeaderForms
