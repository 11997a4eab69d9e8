-- SUMMARY: The forms whose printed text reads back, alone and among others.
import HeaderForms.Proofs.Form.Printed

/-!
# Round trip

A form is faithful when its printed text reads as the form, and the texts of forms with gaps between
them read as the forms exactly when each of them is faithful in its place. A plain form is faithful
in every place.
-/

namespace HeaderForms

open Reader

namespace Form

/-! ## Faithful forms -/

mutual

/-- Whether the text of a form reads as the form, when another form is `followed` or not: its
integers are in range, its floats are finite, and no comma in it is read as a splice. -/
def faithful (followed : Bool) : Form → Bool
  | .integer value => Numeral.inInt64 value
  | .float value => value.isFinite
  | .list [.symbol head, inner] =>
    if (abbreviation? head).isSome then
      !(head == "comma" && splices followed inner) && faithful followed inner
    else faithful false inner
  | .list items => faithfulAll items
  | .dotted items tail => faithfulAll items && faithful false tail
  | .tuple items => faithfulAll items
  | .symbol _ | .string _ | .binary _ => true

/-- Whether the texts of forms that follow one another read as the forms. -/
def faithfulAll : List Form → Bool
  | [] => true
  | form :: forms => faithful (!forms.isEmpty) form && faithfulAll forms

end

theorem faithful_list {items : List Form} (h : quotation? items = none) (followed : Bool) :
    faithful followed (.list items) = faithfulAll items := by
  by_cases hpair : ∃ head inner, items = [.symbol head, inner]
  · obtain ⟨head, inner, rfl⟩ := hpair
    have hnone : abbreviation? head = none := by simpa [quotation?] using h
    simp [faithful, hnone, faithfulAll]
  · rw [faithful.eq_4 followed items fun head inner heq => hpair ⟨head, inner, heq⟩]

theorem faithful_quotation {head : String} (hhead : (abbreviation? head).isSome = true)
    (inner : Form) (followed : Bool) :
    faithful followed (.list [.symbol head, inner]) =
      (!(head == "comma" && splices followed inner) && faithful followed inner) := by
  rw [faithful, if_pos hhead]

theorem mapM_id_eq_some {values : List (Option Form)} {forms : List Form} :
    values.mapM id = some forms ↔ values = forms.map some := by
  induction values generalizing forms with
  | nil => cases forms <;> simp
  | cons value values ih =>
    rw [List.mapM_cons]
    cases forms with
    | nil => cases value <;> cases values.mapM id <;> simp
    | cons form forms =>
      rw [List.map_cons, List.cons.injEq, ← ih]
      cases value with
      | none => simp
      | some first => cases values.mapM id <;> simp

theorem length_readEach_le (forms : List Form) :
    (readEach [] forms).length ≤ forms.length := by
  induction forms with
  | nil => exact le_rfl
  | cons form forms ih =>
    obtain ⟨value, hvalue | ⟨-, hvalue⟩⟩ := readBefore_eq_cons form (readEach [] forms) <;>
    · rw [readEach, hvalue]
      simp only [List.length_cons, List.length_tail]
      omega

theorem isEmpty_readEach (forms : List Form) : (readEach [] forms).isEmpty = forms.isEmpty := by
  cases forms with
  | nil => rfl
  | cons form forms =>
    obtain ⟨value, hvalue | ⟨-, hvalue⟩⟩ := readBefore_eq_cons form (readEach [] forms) <;>
      simp [readEach, hvalue]

/-- A form comes back before some text when it is faithful there. -/
def ComesBack (form : Form) : Prop :=
  ∀ behind, readBefore behind form = some form :: behind ↔
    faithful (!behind.isEmpty) form = true

theorem readEach_eq_map {forms : List Form} (h : ∀ form ∈ forms, ComesBack form) :
    readEach [] forms = forms.map some ↔ faithfulAll forms = true := by
  induction forms with
  | nil => simp [readEach, faithfulAll]
  | cons form forms ih =>
    have hfirst := h form List.mem_cons_self (readEach [] forms)
    have hothers := ih fun f hf => h f (List.mem_cons_of_mem form hf)
    rw [isEmpty_readEach] at hfirst
    rw [faithfulAll, Bool.and_eq_true, ← hfirst, ← hothers, readEach, List.map_cons]
    constructor
    · intro heq
      -- A form that took the next one with it would leave too few.
      have hlength := length_readEach_le forms
      obtain ⟨value, hvalue | ⟨hne, hvalue⟩⟩ := readBefore_eq_cons form (readEach [] forms)
      · rw [hvalue] at heq ⊢
        obtain ⟨rfl, hrest⟩ := List.cons.inj heq
        exact ⟨rfl, hrest⟩
      · rw [hvalue] at heq
        have hrest := congrArg List.length (List.cons.inj heq).2
        have hpos := List.length_pos_of_ne_nil hne
        simp only [List.length_tail, List.length_map] at hrest
        omega
    · rintro ⟨hform, hforms⟩
      rw [hform, hforms]

theorem comesBack_quotation {head : String} {inner : Form}
    (hhead : (abbreviation? head).isSome = true) (h : ComesBack inner) :
    ComesBack (.list [.symbol head, inner]) := by
  intro behind
  rw [readBefore_quotation hhead, faithful_quotation hhead]
  split
  case isTrue hsplices =>
    rw [Bool.and_eq_true, beq_iff_eq] at hsplices
    obtain ⟨rfl, hsplices⟩ := hsplices
    obtain ⟨name, more, rfl, hname, -, hfollowed⟩ := exists_symbol_of_splices hsplices
    have hhead : ∀ value, abbreviated "comma-at" value ≠
        some (.list [.symbol "comma", .symbol name]) := by
      rintro (_ | value) heq
      · cases heq
      · simp [abbreviated, call] at heq
    rw [hsplices, beq_self_eq_true, Bool.true_and, Bool.not_true, Bool.false_and, splicedBefore,
      hname, List.drop_one, List.tail_cons]
    refine ⟨fun heq => ?_, fun hfalse => by cases hfalse⟩
    split at heq
    case h_1 =>
      cases behind with
      | nil => cases hfollowed rfl
      | cons next behind => exact absurd (List.cons.inj heq).1 (hhead next)
    case h_2 => exact absurd (List.cons.inj heq).1 (hhead _)
  case isFalse hsplices =>
    rw [Bool.not_eq_true] at hsplices
    rw [hsplices, Bool.not_false, Bool.true_and, ← h behind]
    obtain ⟨value, hvalue | ⟨hne, hvalue⟩⟩ := readBefore_eq_cons inner behind
    · rw [hvalue]
      cases value <;> simp [abbreviated, call]
    · cases behind with
      | nil => exact absurd rfl hne
      | cons next behind =>
        have hlength : (next :: behind).tail ≠ next :: behind := by
          intro heq
          have := congrArg List.length heq
          simp at this
        rw [hvalue]
        simp [abbreviated, call]

theorem comesBack (form : Form) : ComesBack form := by
  induction form using Form.induction with
  | symbol name | string name | binary name => exact fun _ => by simp [readBefore, faithful]
  | integer value =>
    intro behind
    cases hvalue : Numeral.inInt64 value <;> simp [readBefore, faithful, hvalue]
  | float value =>
    intro behind
    cases hvalue : value.isFinite <;> simp [readBefore, faithful, hvalue]
  | list items ih =>
    cases hquotation : quotation? items with
    | some pair =>
      obtain ⟨rfl, hhead⟩ := quotation?_eq_some hquotation
      exact comesBack_quotation hhead (ih _ (by simp))
    | none =>
      intro behind
      rw [readBefore_list hquotation, faithful_list hquotation, ← readEach_eq_map ih,
        ← mapM_id_eq_some]
      cases (readEach [] items).mapM id <;> simp
  | dotted items tail ih ihTail =>
    intro behind
    have hitems := readEach_eq_map ih
    have htail := ihTail []
    obtain ⟨value, hvalue⟩ := readBefore_nil tail
    rw [← mapM_id_eq_some] at hitems
    rw [hvalue, List.cons.injEq, and_iff_left rfl] at htail
    change value = some tail ↔ faithful false tail = true at htail
    rw [faithful, Bool.and_eq_true, ← hitems, ← htail, readBefore, hvalue]
    cases (readEach [] items).mapM id <;> cases value <;> simp
  | tuple items ih =>
    intro behind
    rw [faithful, ← readEach_eq_map ih, ← mapM_id_eq_some, readBefore]
    cases (readEach [] items).mapM id <;> simp

/-! ## Whole texts -/

theorem isBlank_of_isDigit {c : Char} (h : Numeral.isDigit c = true) : Text.isBlank c = false := by
  have hrange := Numeral.toNat_of_isDigit h
  simp only [Text.isBlank, Bool.or_eq_false_iff, Bool.and_eq_false_iff, beq_eq_false_iff_ne,
    decide_eq_false_iff_not]
  omega

/-- No printed text is blank. -/
theorem exists_not_blank (form : Form) : ∃ c ∈ form.chars, Text.isBlank c = false := by
  cases form with
  | symbol name =>
    rw [chars_symbol, symbolChars]
    split
    case isTrue hbare =>
      obtain ⟨c, more, hname⟩ := List.exists_cons_of_ne_nil (isRun_of_isBare hbare).ne_nil
      simp only [isBare, Bool.and_eq_true, List.all_eq_true, Bool.not_eq_true'] at hbare
      have hc : c ∈ name.toList := hname ▸ List.mem_cons_self
      exact ⟨c, hc, (hbare.2 c hc).1.1⟩
    case isFalse => exact ⟨'|', by simp, by decide⟩
  | integer value =>
    have hdigits := Float64.isDigits_naturalChars value.natAbs
    obtain ⟨c, rest, hcons, hc⟩ := hdigits.exists_cons
    refine ⟨c, ?_, isBlank_of_isDigit hc⟩
    rw [chars, Numeral.integerChars, hcons]
    split <;> simp
  | float value =>
    rw [chars]
    cases hfinite : value.isFinite with
    | true =>
      obtain ⟨cs, n, s, htext, hwrites, -⟩ := Float64.exists_writesDecimal .display hfinite
      obtain ⟨c, rest, rfl, hc⟩ := hwrites.exists_cons
      exact ⟨c, by simp [htext], isBlank_of_isDigit hc⟩
    | false =>
      have hword := Float64.chars_of_not_finite .display hfinite
      generalize value.chars .display = cs at hword
      simp only [List.mem_cons, List.not_mem_nil, or_false] at hword
      rcases hword with rfl | rfl | rfl
      · exact ⟨'N', by simp, by decide⟩
      · exact ⟨'i', by simp, by decide⟩
      · exact ⟨'-', by simp, by decide⟩
  | string text => exact ⟨'"', by simp [chars, stringChars], by decide⟩
  | list items =>
    cases hquotation : quotation? items with
    | none => exact ⟨'(', by simp [chars_list hquotation], by decide⟩
    | some pair =>
      obtain ⟨rfl, hhead⟩ := quotation?_eq_some hquotation
      obtain ⟨short, hshort⟩ := Option.isSome_iff_exists.1 hhead
      have hmem := abbreviation?_eq_some hshort
      rw [chars_quotation hshort]
      simp only [abbreviations, List.mem_cons, List.not_mem_nil, or_false, Prod.mk.injEq] at hmem
      rcases hmem with ⟨-, rfl⟩ | ⟨-, rfl⟩ | ⟨-, rfl⟩ | ⟨-, rfl⟩
      · exact ⟨'\x27', by simp, by decide⟩
      · exact ⟨'\x60', by simp, by decide⟩
      · exact ⟨',', by simp, by decide⟩
      · exact ⟨',', by simp, by decide⟩
  | dotted items tail => exact ⟨'(', by simp [chars], by decide⟩
  | tuple items => exact ⟨'#', by simp [chars], by decide⟩
  | binary bytes => exact ⟨'#', by simp [chars], by decide⟩

theorem isBlankText_joined {form : Form} {forms : List Form} {cs : List Char}
    (h : Joined (charsAll (form :: forms)) cs) : Text.isBlankText cs = false := by
  obtain ⟨c, hc, hblank⟩ := exists_not_blank form
  have hmem : c ∈ cs := by
    rcases h.uncons with ⟨-, rfl⟩ | ⟨gap, joined, -, -, -, rfl⟩
    · exact hc
    · exact List.mem_append_left _ hc
  rw [Text.isBlankText, List.all_eq_false]
  exact ⟨c, hmem, by simp [hblank]⟩

theorem readAll_eq_ok_iff {cs rest : List Char} {values : List (Option Form)} {forms : List Form}
    (hblank : Text.isBlankText cs = false) (h : Reads cs values rest)
    (hend : skipBlanks rest = []) :
    readAll (String.ofList cs) = .ok forms ↔ values = forms.map some := by
  obtain ⟨data, rfl, hmany⟩ := h.many
  obtain ⟨far, hdata⟩ := hmany (cs.length + 1) (cs.length + 1) cs.length
    (Nat.lt_add_one cs.length) (Nat.lt_add_one cs.length)
  rw [← mapM_id_eq_some, ← Datum.toOption_forms, readAll, String.toList_ofList, hblank,
    if_neg Bool.false_ne_true, Reader.data, hdata]
  simp only [hend, List.isEmpty_nil, if_true]
  cases hforms : Datum.forms data with
  | error failure => simp [bind, Except.bind, hforms, Except.toOption]
  | ok forms' => simp [bind, Except.bind, hforms, Except.toOption]

/-- Texts of forms with gaps between them read as the forms exactly when each form is faithful in
its place. -/
theorem readAll_joined_iff {forms : List Form} {cs : List Char}
    (h : Joined (forms.map chars) cs) :
    readAll (String.ofList cs) = .ok forms ↔ faithfulAll forms = true := by
  rw [← charsAll_eq_map] at h
  rw [← readEach_eq_map fun form _ => comesBack form]
  cases forms with
  | nil =>
    cases h
    exact iff_of_true rfl rfl
  | cons form forms =>
    have hreads := reads_joined (fun form _ => readsBefore form) h .nil (.stop misses_nil)
    rw [List.append_nil] at hreads
    exact readAll_eq_ok_iff (isBlankText_joined h) hreads rfl

/-- The text of one form reads as the form exactly when the form is faithful. -/
theorem readAll_text_iff (form : Form) :
    readAll form.text = .ok [form] ↔ faithful false form = true := by
  have h := @readAll_joined_iff [form] form.chars (.one form.chars)
  rwa [faithfulAll, faithfulAll, Bool.and_true] at h

/-- A list whose items are laid out with any gaps between them, and with blanks behind it, reads as
the list exactly when its items are faithful. -/
theorem readAll_layout_iff {items : List Form} {cs blanks : List Char}
    (h : Joined (items.map chars) cs) (hblanks : ∀ c ∈ blanks, c = ' ' ∨ c = '\n') :
    readAll (String.ofList ('(' :: (cs ++ ')' :: blanks))) = .ok [.list items] ↔
      faithfulAll items = true := by
  have hskip : skipBlanks blanks = [] := by
    have hblank := skipBlanks_blank hblanks []
    rwa [List.append_nil] at hblank
  rw [← charsAll_eq_map] at h
  have hitems := reads_joined (fun form _ => readsBefore form) h (.close blanks)
    (.stop (skipBlanks_close blanks ▸ misses_close blanks))
  have hlist := finds_list hitems (skipBlanks_close blanks)
  have hreads : Reads _ _ blanks := .of_finds (skipBlanks_cons rfl (by decide) (by decide) _) hlist
    (.stop (hskip ▸ misses_nil))
  have hopen : Text.isBlankText ('(' :: (cs ++ ')' :: blanks)) = false := rfl
  rw [readAll_eq_ok_iff hopen hreads hskip, ← readEach_eq_map fun form _ => comesBack form,
    ← @mapM_id_eq_some _ items]
  cases (readEach [] items).mapM id <;> simp

/-! ## Plain forms -/

/-- A form whose integers have 64 bits, whose floats are finite and whose commas do not stand before
a symbol that starts with `@`. -/
structure Plain (form : Form) : Prop where
  integers : ∀ value, Subform (.integer value) form → Numeral.inInt64 value = true
  floats : ∀ value, Subform (.float value) form → value.isFinite = true
  commas : ∀ name, Subform (.list [.symbol "comma", .symbol name]) form →
    name.toList.head? ≠ some '@'

theorem Plain.of_subform {inner outer : Form} (h : Plain outer) (hsub : Subform inner outer) :
    Plain inner :=
  ⟨fun value hvalue => h.integers value (hvalue.trans hsub),
    fun value hvalue => h.floats value (hvalue.trans hsub),
    fun name hname => h.commas name (hname.trans hsub)⟩

theorem faithfulAll_of_forall {forms : List Form}
    (h : ∀ form ∈ forms, ∀ followed, faithful followed form = true) :
    faithfulAll forms = true := by
  induction forms with
  | nil => rfl
  | cons form forms ih =>
    rw [faithfulAll, h form List.mem_cons_self, Bool.true_and]
    exact ih fun f hf => h f (List.mem_cons_of_mem form hf)

theorem Plain.faithful {form : Form} (h : Plain form) (followed : Bool) :
    form.faithful followed = true := by
  induction form using Form.induction generalizing followed with
  | symbol | string | binary => rfl
  | integer value => exact h.integers value .refl
  | float value => exact h.floats value .refl
  | list items ih =>
    have hitems : ∀ item ∈ items, ∀ followed, item.faithful followed = true := fun item hitem =>
      ih item hitem (h.of_subform (.list hitem .refl))
    cases hquotation : quotation? items with
    | none =>
      rw [faithful_list hquotation]
      exact faithfulAll_of_forall hitems
    | some pair =>
      obtain ⟨rfl, hhead⟩ := quotation?_eq_some hquotation
      rw [faithful_quotation hhead, hitems pair.2 (by simp), Bool.and_true, Bool.not_eq_true',
        Bool.and_eq_false_iff, or_iff_not_imp_left]
      intro hcomma
      rw [Bool.not_eq_false, beq_iff_eq] at hcomma
      by_contra hsplices
      obtain ⟨name, more, hinner, hname, -⟩ :=
        exists_symbol_of_splices (by simpa using hsplices)
      rw [hcomma, hinner] at h
      exact h.commas name .refl (by rw [hname]; rfl)
  | dotted items tail ih ihTail =>
    have hitems := faithfulAll_of_forall fun item hitem =>
      ih item hitem (h.of_subform (.dottedItem hitem .refl))
    rw [Form.faithful, hitems, ihTail (h.of_subform (.dottedTail .refl))]
    rfl
  | tuple items ih =>
    exact faithfulAll_of_forall fun item hitem =>
      ih item hitem (h.of_subform (.tuple hitem .refl))

/-- The printed texts of plain forms with gaps between them read as the forms. -/
theorem readAll_of_plain {forms : List Form} {text : String} (hplain : ∀ form ∈ forms, Plain form)
    (htext : Joined (forms.map chars) text.toList) : readAll text = .ok forms := by
  rw [← String.ofList_toList (s := text), readAll_joined_iff htext]
  exact faithfulAll_of_forall fun form hform => (hplain form hform).faithful

/-- One plain form for each way of printing that has marks of its own. -/
def plainSample : List Form :=
  [quote (.symbol "a b"), .float ⟨0x3FF8000000000000⟩, .dotted [] (.string "x\n"),
    .tuple [.binary [0, 255], .integer (-3)]]

theorem readAll_plainSample :
    (∀ form ∈ plainSample, Plain form) ∧
      Joined (plainSample.map chars) "'|a b| 1.5\n( . \"x\\n\") #(#B(0 255) -3)".toList ∧
      readAll "'|a b| 1.5\n( . \"x\\n\") #(#B(0 255) -3)" = .ok plainSample := by
  have hplain : ∀ form ∈ plainSample, Plain form := by
    intro form hform
    simp only [plainSample, List.mem_cons, List.not_mem_nil, or_false] at hform
    rcases hform with rfl | rfl | rfl | rfl <;> constructor <;> simp [quote, call] <;> decide
  have hspace : IsGap [' '] := ⟨by simp, by simp⟩
  have hnewline : IsGap ['\n'] := ⟨by simp, by simp⟩
  have htext : Joined (plainSample.map chars)
      "'|a b| 1.5\n( . \"x\\n\") #(#B(0 255) -3)".toList := by
    have hchars : plainSample.map chars = ["'|a b|".toList, "1.5".toList,
        "( . \"x\\n\")".toList, "#(#B(0 255) -3)".toList] := by decide +kernel
    rw [hchars]
    exact .cons hspace (.cons hnewline (.cons hspace (.one _)))
  exact ⟨hplain, htext, readAll_of_plain hplain htext⟩

end Form

end HeaderForms
