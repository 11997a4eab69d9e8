-- SUMMARY: Filling the template of a macro body is substituting arguments for parameters.
import HeaderForms.Macro.ToForm
import HeaderForms.Proofs.Bindings
import HeaderForms.Proofs.Template.Filling

/-!
# Templates of macro bodies

The template of a macro body has an unquote in place of every parameter, and filling it puts the
argument in place of the unquote. In a body without unquotes and backquotes of its own no other part
of the template is filled, so both steps together are one substitution of the body.
-/

namespace HeaderForms

open Form

/-! ## Forms without quasi-quotation -/

namespace Form

/-- The heads of the lists that a template does not keep as they stand. -/
def quasiHeads : List String :=
  ["comma", "comma-at", "backquote"]

/-- A form without unquotes, splices and backquotes. -/
def QuasiFree (form : Form) : Prop :=
  ∀ head inner, Subform (.list [.symbol head, inner]) form → head ∉ quasiHeads

theorem QuasiFree.of_subform {inner outer : Form} (h : QuasiFree outer)
    (hsub : Subform inner outer) : QuasiFree inner :=
  fun head form hform => h head form (hform.trans hsub)

end Form

namespace MacroForm

theorem unquotes_eq (params : List String) :
    unquotes params = symbolPairs (params.map fun param => (param, comma (.symbol param))) := by
  simp [unquotes, symbolPairs]

variable {params : List String}

theorem lookup_unquotes (name : String) :
    (params.map fun param => (param, comma (.symbol param))).lookup name =
      if name ∈ params then some (comma (.symbol name)) else none := by
  have hnames : (params.map fun param => (param, comma (.symbol param))).map Prod.fst = params :=
    List.map_map.trans (List.map_id' params)
  split
  case isTrue h =>
    rw [← hnames] at h
    obtain ⟨value, hvalue⟩ := exists_lookup h
    obtain ⟨param, -, hparam⟩ := List.mem_map.1 (mem_of_lookup hvalue)
    cases hparam
    exact hvalue
  case isFalse h => exact lookup_eq_none (by rwa [hnames])

theorem substitute_unquotes_symbol (name : String) :
    (Form.symbol name).substitute (unquotes params) =
      if name ∈ params then comma (.symbol name) else .symbol name := by
  rw [unquotes_eq, substitute_symbol, lookup_unquotes]
  split <;> rfl

/-- Only a symbol becomes a symbol. -/
theorem eq_symbol_of_substitute {form : Form} {name : String}
    (h : form.substitute (unquotes params) = .symbol name) : form = .symbol name := by
  rw [unquotes_eq] at h
  cases form with
  | symbol other =>
    rw [← unquotes_eq, substitute_unquotes_symbol] at h
    split at h
    case isTrue => cases h
    case isFalse => exact h
  | list items =>
    rw [substitute_list] at h
    cases h
  | dotted items tail =>
    rw [substitute_dotted] at h
    cases h
  | tuple items =>
    rw [substitute_tuple] at h
    cases h
  | integer | float | string | binary =>
    rw [substitute_literal] at h
    · cases h
    · trivial

/-- A list with a symbol as its head was one before its parameters were unquoted. -/
theorem exists_of_map_substitute {items : List Form} {head : String} {inner : Form}
    (h : items.map (substitute (unquotes params)) = [.symbol head, inner]) :
    ∃ before, items = [.symbol head, before] ∧ before.substitute (unquotes params) = inner := by
  obtain ⟨first, others, rfl, hfirst, hothers⟩ := List.map_eq_cons_iff.1 h
  obtain ⟨second, rest, rfl, hsecond, hrest⟩ := List.map_eq_cons_iff.1 hothers
  rw [List.map_eq_nil_iff] at hrest
  exact ⟨second, by rw [eq_symbol_of_substitute hfirst, hrest], hsecond⟩

/-- Lists keep their heads, so that no new unquote, splice or backquote comes up around others. -/
theorem not_mem_quasiHeads {items : List Form} (hfree : QuasiFree (.list items)) {head : String}
    {inner : Form} (h : items.map (substitute (unquotes params)) = [.symbol head, inner]) :
    head ∉ quasiHeads := by
  obtain ⟨before, rfl, -⟩ := exists_of_map_substitute h
  exact hfree head before .refl

theorem wrapped?_substitute {form : Form} (hfree : QuasiFree form) {head : String}
    (hhead : head ∈ quasiHeads) (hcomma : head ≠ "comma") :
    (form.substitute (unquotes params)).wrapped? head = none := by
  cases form with
  | symbol name =>
    rw [substitute_unquotes_symbol]
    split
    case isTrue => simp [comma, call, wrapped?, Ne.symm hcomma]
    case isFalse => rfl
  | list items =>
    rw [unquotes_eq, substitute_list, ← unquotes_eq]
    unfold wrapped?
    split
    case h_1 name inner heq =>
      injection heq with heq
      have hname := not_mem_quasiHeads hfree heq
      rw [if_neg]
      rintro rfl
      exact hname hhead
    case h_2 => rfl
  | dotted items tail =>
    rw [unquotes_eq, substitute_dotted]
    rfl
  | tuple items =>
    rw [unquotes_eq, substitute_tuple]
    rfl
  | integer | float | string | binary =>
    rw [unquotes_eq, substitute_literal]
    · rfl
    · trivial

end MacroForm

namespace Template

open MacroForm

theorem fillAll_map {bindings : List (String × Form)} {items : List Form}
    {before after : Form → Form} (hsplice : ∀ item ∈ items, (before item).wrapped? "comma-at" = none)
    (h : ∀ item ∈ items, fill bindings 1 (before item) = .ok (after item)) :
    fillAll bindings 1 (items.map before) = .ok (items.map after) := by
  induction items with
  | nil => rfl
  | cons item items ih =>
    have hothers := ih (fun other hother => hsplice other (List.mem_cons_of_mem item hother))
      fun other hother => h other (List.mem_cons_of_mem item hother)
    simp only [List.map_cons, fillAll, hsplice item List.mem_cons_self, h item List.mem_cons_self,
      hothers]
    rfl

/-- Filling the template of a body is substituting what the parameters are bound to from behind. -/
theorem fill_unquoted_of_lookup {params : List String} {args : List Form} {form : Form}
    {pairs : List (String × Form)} (hlength : params.length = args.length)
    (hpairs : ∀ name, pairs.lookup name = (params.zip args).reverse.lookup name)
    (hfree : QuasiFree form) :
    fill (params.zip args) 1 (form.substitute (unquotes params)) =
      .ok (form.substitute (symbolPairs pairs)) := by
  have hnames : (params.zip args).reverse.map Prod.fst = params.reverse := by
    rw [List.map_reverse, List.map_fst_zip (Nat.le_of_eq hlength)]
  have hitems : ∀ items : List Form, (∀ item ∈ items, QuasiFree item) →
      (∀ item ∈ items, QuasiFree item → fill (params.zip args) 1 (item.substitute (unquotes params)) =
        .ok (item.substitute (symbolPairs pairs))) →
      fillAll (params.zip args) 1 (items.map (substitute (unquotes params))) =
        .ok (items.map (substitute (symbolPairs pairs))) := fun items hfrees ih =>
    fillAll_map (fun item hitem => wrapped?_substitute (hfrees item hitem) (by decide) (by decide))
      fun item hitem => ih item hitem (hfrees item hitem)
  induction form using Form.induction with
  | symbol name =>
    rw [substitute_unquotes_symbol, substitute_symbol]
    split
    case isTrue hname =>
      obtain ⟨value, hvalue⟩ := exists_lookup (hnames.symm ▸ List.mem_reverse.2 hname)
      rw [comma, call, fill, if_neg (by decide), lookup, symbol?, Option.bind_some, hpairs, hvalue]
      rfl
    case isFalse hname =>
      rw [hpairs, lookup_eq_none (hnames.symm ▸ mt List.mem_reverse.1 hname), fill_symbol]
      rfl
  | integer | float | string | binary =>
    rw [unquotes_eq, substitute_literal, substitute_literal]
    · exact fill_literal trivial
    all_goals trivial
  | list items ih =>
    have hall := hitems items (fun item hitem => hfree.of_subform (.list hitem .refl)) ih
    rw [substitute_list, unquotes_eq, substitute_list, ← unquotes_eq,
      fill_list (fun inner heq => not_mem_quasiHeads hfree heq (by decide))
        fun inner heq => not_mem_quasiHeads hfree heq (by decide), hall]
    rfl
  | dotted items tail ih ihTail =>
    have hall := hitems items (fun item hitem => hfree.of_subform (.dottedItem hitem .refl)) ih
    rw [substitute_dotted, unquotes_eq, substitute_dotted, ← unquotes_eq, fill, hall,
      ihTail (hfree.of_subform (.dottedTail .refl))]
    rfl
  | tuple items ih =>
    have hall := hitems items (fun item hitem => hfree.of_subform (.tuple hitem .refl)) ih
    rw [substitute_tuple, unquotes_eq, substitute_tuple, ← unquotes_eq, fill, hall]
    rfl

/-- Where no parameter comes twice the arguments are substituted for the parameters. -/
theorem fill_unquoted {params : List String} {args : List Form} {form : Form}
    (hparams : params.Nodup) (hlength : params.length = args.length) (hfree : QuasiFree form) :
    fill (params.zip args) 1 (form.substitute (unquotes params)) =
      .ok (form.substitute (symbolPairs (params.zip args))) := by
  have hnames : (params.zip args).map Prod.fst = params :=
    List.map_fst_zip (Nat.le_of_eq hlength)
  exact fill_unquoted_of_lookup hlength
    (fun name => (lookup_reverse (hnames.symm ▸ hparams) name).symm) hfree

end Template

end HeaderForms
