-- SUMMARY: What a text reads as, and what the printed text of a form reads as.
import HeaderForms.Proofs.Form.Atom
import HeaderForms.Proofs.Form.Basic

/-!
# Reading texts

Reading is described by rules on the text that is left: `Finds` for one form at the front of it and
`Reads` for the forms that follow one another. A form is found with its value, which is none when
a literal inside has no value. The rules leave out how deep the reader may nest, since every nested
form has a shorter text.
-/

namespace HeaderForms

/-! ## Values of data -/

namespace Datum

theorem toOption_forms (data : List Datum) :
    (forms data).toOption = (data.map value?).mapM id := by
  induction data with
  | nil => rfl
  | cons first others ih =>
    rw [List.map_cons, List.mapM_cons, ← ih, value?, forms]
    cases first.form with
    | error => rfl
    | ok value => cases forms others <;> rfl

theorem value?_list (items : List Datum) :
    (list items).value? = ((items.map value?).mapM id).map .list := by
  rw [← toOption_forms, value?, form]
  cases forms items <;> rfl

theorem value?_dotted (items : List Datum) (tail : Datum) :
    (dotted items tail).value? =
      ((items.map value?).mapM id).bind fun items => tail.value?.map (.dotted items) := by
  rw [← toOption_forms, value?, value?, form]
  cases forms items with
  | error => rfl
  | ok values => cases tail.form <;> rfl

theorem value?_tuple (items : List Datum) :
    (tuple items).value? = ((items.map value?).mapM id).map .tuple := by
  rw [← toOption_forms, value?, form]
  cases forms items <;> rfl

theorem value?_wrapped (head : String) (inner : Datum) :
    (wrapped head inner).value? = inner.value?.map fun value => .call head [value] := by
  rw [value?, value?, form]
  cases inner.form <;> rfl

end Datum

namespace Reader

open Numeral

/-! ## Blanks -/

theorem length_skipGap_le (gap : Gap) (cs : List Char) : (skipGap gap cs).length ≤ cs.length := by
  fun_induction skipGap gap cs <;> simp only [List.length_cons, List.length_nil] at * <;> omega

theorem length_skipBlanks_le (cs : List Char) : (skipBlanks cs).length ≤ cs.length :=
  length_skipGap_le .space cs

/-- The characters between two forms of a printed text. -/
structure IsGap (gap : List Char) : Prop where
  ne_nil : gap ≠ []
  blank : ∀ c ∈ gap, c = ' ' ∨ c = '\n'

/-- The texts follow one another in a text with gaps between them. -/
inductive Joined : List (List Char) → List Char → Prop where
  | nil : Joined [] []
  | one (text : List Char) : Joined [text] text
  | cons {text next gap joined : List Char} {others : List (List Char)} :
      IsGap gap → Joined (next :: others) joined →
      Joined (text :: next :: others) (text ++ (gap ++ joined))

/-- The texts but the first, with a gap before each. -/
theorem Joined.uncons {text cs : List Char} {others : List (List Char)}
    (h : Joined (text :: others) cs) :
    (others = [] ∧ cs = text) ∨ ∃ gap joined, others ≠ [] ∧ IsGap gap ∧ Joined others joined ∧
      cs = text ++ (gap ++ joined) := by
  cases h with
  | one => exact .inl ⟨rfl, rfl⟩
  | @cons _ _ gap joined _ hgap hjoined => exact .inr ⟨gap, joined, by simp, hgap, hjoined, rfl⟩

theorem skipBlanks_blank {gap : List Char} (h : ∀ c ∈ gap, c = ' ' ∨ c = '\n') (cs : List Char) :
    skipBlanks (gap ++ cs) = skipBlanks cs := by
  induction gap with
  | nil => rfl
  | cons c gap ih =>
    rw [← ih fun d hd => h d (List.mem_cons_of_mem c hd)]
    rcases h c List.mem_cons_self with rfl | rfl <;> simp [skipBlanks, skipGap, isSpace]

theorem IsGap.breaks {gap : List Char} (h : IsGap gap) (cs : List Char) : Breaks (gap ++ cs) := by
  cases gap with
  | nil => exact absurd rfl h.ne_nil
  | cons c gap =>
    rcases h.blank c List.mem_cons_self with rfl | rfl
    · exact .space (gap ++ cs)
    · exact .newline (gap ++ cs)

/-- A character that starts a form, whatever stands behind it. -/
theorem skipBlanks_cons {c : Char} (hspace : isSpace c = false) (hcomment : c ≠ ';')
    (hmark : c ≠ '#') (cs : List Char) : skipBlanks (c :: cs) = c :: cs := by
  rw [skipBlanks, skipGap.eq_2 _ _ fun _ h => absurd h hmark, hspace, if_neg Bool.false_ne_true,
    if_neg hcomment]

theorem skipBlanks_mark {c : Char} (hbar : c ≠ '|') (cs : List Char) :
    skipBlanks ('#' :: c :: cs) = '#' :: c :: cs := by
  have hside : ∀ more, '#' = '#' → c :: cs = '|' :: more → False := by
    intro more _ h
    exact hbar (List.cons.inj h).1
  rw [skipBlanks, skipGap.eq_2 _ _ hside]
  rfl

theorem skipBlanks_run {run rest : List Char} (h : IsRun run) (hrest : Breaks rest) :
    skipBlanks (run ++ rest) = run ++ rest := by
  obtain ⟨c, more, rfl⟩ := List.exists_cons_of_ne_nil h.ne_nil
  have hc := isSymbolChar_iff.1 (h.symbolChars c List.mem_cons_self)
  by_cases hmark : c = '#'
  · subst hmark
    cases more with
    | nil => cases hrest <;> rfl
    | cons d more =>
      have hd := h.symbolChars d (by simp)
      refine skipBlanks_mark ?_ (more ++ rest)
      rintro rfl
      cases hd
  · have hspace : isSpace c = false := by
      by_contra hne
      have hc' := h.symbolChars c List.mem_cons_self
      simp [isSymbolChar, hne] at hc'
    refine skipBlanks_cons hspace ?_ hmark (more ++ rest)
    rintro rfl
    exact hc (by decide)

/-! ## First characters

The first characters of a text say how it is read. -/

section

variable (depth far : Nat) (cs : List Char)

theorem datum_quote : datum (depth + 1) far ('\x27' :: cs) =
    wrapped "quote" (datum depth) (min far (cs.length + 1)) cs :=
  rfl

theorem datum_backquote : datum (depth + 1) far ('\x60' :: cs) =
    wrapped "backquote" (datum depth) (min far (cs.length + 1)) cs :=
  rfl

theorem datum_commaAt : datum (depth + 1) far (',' :: '@' :: cs) =
    orElse (wrapped "comma-at" (datum depth) (min far (cs.length + 2)) cs) fun far =>
      wrapped "comma" (datum depth) far ('@' :: cs) :=
  rfl

theorem datum_tuple : datum (depth + 1) far ('#' :: '(' :: cs) =
    orElse (tupleItems (datum depth) (min far (cs.length + 2)) cs) fun far =>
      (atom? ('#' :: '(' :: cs), far) :=
  rfl

theorem datum_binary : datum (depth + 1) far ('#' :: 'B' :: '(' :: cs) =
    orElse (binaryItems (min far (cs.length + 3)) cs) fun far =>
      (atom? ('#' :: 'B' :: '(' :: cs), far) :=
  rfl

theorem datum_list : datum (depth + 1) far ('(' :: cs) =
    listItems (datum depth) ')' (min far (cs.length + 1)) cs :=
  rfl

theorem datum_string : datum (depth + 1) far ('"' :: cs) =
    (stringDatum cs, min far (cs.length + 1)) :=
  rfl

theorem datum_bar : datum (depth + 1) far ('|' :: cs) = (barSymbol cs, min far (cs.length + 1)) :=
  rfl

theorem datum_point : datum (depth + 1) far ('.' :: cs) =
    (atom? ('.' :: cs), min far (cs.length + 1)) :=
  rfl

end

/-! ## Rules -/

/-- A form with the value `value` stands at the front of `cs`, and `rest` behind it. -/
def Finds (cs : List Char) (value : Option Form) (rest : List Char) : Prop :=
  rest.length < cs.length ∧ ∃ d : Datum, d.value? = value ∧
    ∀ depth far, cs.length ≤ depth → (datum (depth + 1) far cs).1 = some (d, rest)

/-- No form stands at the front of `cs`. -/
def Misses (cs : List Char) : Prop :=
  ∀ depth far, cs.length ≤ depth → (datum (depth + 1) far cs).1 = none

/-- Forms with the values `values` follow one another in `cs`, and no more does in `rest`. -/
inductive Reads : List Char → List (Option Form) → List Char → Prop where
  | stop {cs : List Char} : Misses (skipBlanks cs) → Reads cs [] cs
  | step {cs behind rest : List Char} {value : Option Form} {values : List (Option Form)} :
      Finds (skipBlanks cs) value behind → Reads behind values rest →
      Reads cs (value :: values) rest

theorem Reads.of_finds {cs behind rest : List Char} {value : Option Form}
    {values : List (Option Form)} (hself : skipBlanks cs = cs) (hfinds : Finds cs value behind)
    (h : Reads behind values rest) : Reads cs (value :: values) rest :=
  .step (hself.symm ▸ hfinds) h

theorem Finds.datum {cs rest : List Char} {value : Option Form} (h : Finds cs value rest) :
    ∃ d : Datum, d.value? = value ∧ ∀ depth far, cs.length < depth →
      ∃ far', Reader.datum depth far cs = (some (d, rest), far') := by
  obtain ⟨-, d, hvalue, hdatum⟩ := h
  refine ⟨d, hvalue, fun depth far hdepth => ?_⟩
  obtain ⟨depth, rfl⟩ := Nat.exists_eq_add_one_of_ne_zero (Nat.ne_zero_of_lt hdepth)
  exact ⟨_, Prod.ext (hdatum depth far (Nat.le_of_lt_add_one hdepth)) rfl⟩

theorem Misses.datum {cs : List Char} (h : Misses cs) (depth far : Nat)
    (hdepth : cs.length < depth) : ∃ far', Reader.datum depth far cs = (none, far') := by
  obtain ⟨depth, rfl⟩ := Nat.exists_eq_add_one_of_ne_zero (Nat.ne_zero_of_lt hdepth)
  exact ⟨_, Prod.ext (h depth far (Nat.le_of_lt_add_one hdepth)) rfl⟩

theorem Reads.length_le {cs rest : List Char} {values : List (Option Form)}
    (h : Reads cs values rest) : rest.length ≤ cs.length := by
  induction h with
  | stop => exact le_rfl
  | @step cs behind rest value values hfinds _ ih =>
    have hskip := length_skipBlanks_le cs
    have hbehind := hfinds.1
    omega

/-- The blanks before the first form do not count. -/
theorem Reads.of_skipBlanks_eq {cs cs' rest : List Char} {value : Option Form}
    {values : List (Option Form)} (h : Reads cs (value :: values) rest)
    (hskip : skipBlanks cs' = skipBlanks cs) : Reads cs' (value :: values) rest := by
  cases h with
  | step hfinds hreads => exact .step (hskip ▸ hfinds) hreads

theorem Reads.many {cs rest : List Char} {values : List (Option Form)}
    (h : Reads cs values rest) :
    ∃ data : List Datum, data.map Datum.value? = values ∧
      ∀ depth count far, cs.length < depth → cs.length < count →
        ∃ far', Reader.many (Reader.datum depth) count far cs = ((data, rest), far') := by
  induction h with
  | @stop cs hmisses =>
    refine ⟨[], rfl, fun depth count far hdepth hcount => ?_⟩
    obtain ⟨count, rfl⟩ := Nat.exists_eq_add_one_of_ne_zero (Nat.ne_zero_of_lt hcount)
    have hskip := length_skipBlanks_le cs
    obtain ⟨far', hnone⟩ := hmisses.datum depth far (by omega)
    exact ⟨far', by rw [Reader.many, hnone]⟩
  | @step cs behind rest value values hfinds _ ih =>
    obtain ⟨d, hvalue, hdatum⟩ := hfinds.datum
    obtain ⟨data, hvalues, hmany⟩ := ih
    refine ⟨d :: data, by rw [List.map_cons, hvalue, hvalues],
      fun depth count far hdepth hcount => ?_⟩
    obtain ⟨count, rfl⟩ := Nat.exists_eq_add_one_of_ne_zero (Nat.ne_zero_of_lt hcount)
    have hskip := length_skipBlanks_le cs
    have hshort := hfinds.1
    obtain ⟨far', hfirst⟩ := hdatum depth far (by omega)
    obtain ⟨far'', hothers⟩ := hmany depth count far' (by omega) (by omega)
    refine ⟨far'', ?_⟩
    rw [Reader.many, hfirst]
    simp only [hothers]

/-! ## Atoms -/

theorem finds_run {run rest : List Char} (h : IsRun run) (hrest : Breaks rest) :
    Finds (run ++ rest) (runValue run) rest := by
  obtain ⟨d, hatom, hvalue⟩ := h.atom?_append hrest
  have hlength := List.length_pos_of_ne_nil h.ne_nil
  refine ⟨by simp [hlength], d, hvalue, fun depth far _ => ?_⟩
  obtain ⟨c, more, rfl⟩ := List.exists_cons_of_ne_nil h.ne_nil
  have hc := isSymbolChar_iff.1 (h.symbolChars c List.mem_cons_self)
  have hparen : ∀ more', more ++ rest ≠ '(' :: more' := by
    intro more' heq
    cases more with
    | nil => cases hrest <;> cases heq
    | cons d more =>
      have hd := h.symbolChars d (by simp)
      cases heq
      cases hd
  have hbinary : ∀ more', more ++ rest ≠ 'B' :: '(' :: more' := by
    intro more' heq
    cases more with
    | nil => cases hrest <;> cases heq
    | cons d more =>
      cases more with
      | nil =>
        cases heq
        cases hrest
      | cons e more =>
        have he := h.symbolChars e (by simp)
        cases heq
        cases he
  -- No other kind of form starts with a symbol character, save for a mark before a parenthesis.
  rw [datum.eq_12, hatom]
  all_goals
    intro more' heq
    obtain ⟨rfl, heq'⟩ := List.cons.inj heq
  case x_8 => exact hparen more' heq'
  case x_9 => exact hbinary more' heq'
  all_goals exact hc (by decide)

theorem misses_nil : Misses [] := by
  intro depth far _
  rfl

theorem misses_close (rest : List Char) : Misses (')' :: rest) := by
  intro depth far _
  rfl

theorem misses_point {rest : List Char} (hrest : Breaks rest) : Misses ('.' :: rest) := by
  intro depth far _
  rw [datum_point, atom?_point hrest]

theorem finds_string (text rest : List Char) :
    Finds (Form.stringChars text ++ rest) (some (.string (String.ofList text))) rest := by
  refine ⟨by simp [Form.stringChars]; omega, .string text, rfl, fun depth far _ => ?_⟩
  simp [Form.stringChars, datum_string, stringDatum, enclosed?_string, unescapeString_string]

theorem finds_symbol (name : List Char) {rest : List Char} (hrest : Breaks rest) :
    Finds (Form.symbolChars name ++ rest) (some (.symbol (String.ofList name))) rest := by
  rw [Form.symbolChars]
  split
  case isTrue h =>
    rw [← runValue_of_isBare h]
    exact finds_run (isRun_of_isBare h) hrest
  case isFalse =>
    refine ⟨by simp; omega, .symbol name, rfl, fun depth far _ => ?_⟩
    simp [datum_bar, barSymbol, enclosed?_bars, unescapeSymbol_bars]

theorem skipBlanks_symbol (name : List Char) {rest : List Char} (hrest : Breaks rest) :
    skipBlanks (Form.symbolChars name ++ rest) = Form.symbolChars name ++ rest := by
  rw [Form.symbolChars]
  split
  case isTrue h => exact skipBlanks_run (isRun_of_isBare h) hrest
  case isFalse => exact skipBlanks_cons rfl (by decide) (by decide) _

/-! ## Compound forms -/

theorem length_lt_of_skipBlanks {cs rest : List Char} {c : Char}
    (h : skipBlanks cs = c :: rest) : rest.length < cs.length := by
  have hskip := length_skipBlanks_le cs
  rw [h, List.length_cons] at hskip
  exact hskip

theorem finds_list {cs rest behind : List Char} {values : List (Option Form)}
    (h : Reads cs values rest) (hclose : skipBlanks rest = ')' :: behind) :
    Finds ('(' :: cs) ((values.mapM id).map .list) behind := by
  obtain ⟨data, hvalues, hmany⟩ := h.many
  have hbehind := length_lt_of_skipBlanks hclose
  have hrest := h.length_le
  refine ⟨by simp only [List.length_cons]; omega, .list data, by rw [Datum.value?_list, hvalues],
    fun depth far hdepth => ?_⟩
  obtain ⟨far', hitems⟩ := hmany depth (cs.length + 1) (min far (cs.length + 1)) hdepth
    (Nat.lt_add_one cs.length)
  simp [datum_list, listItems, hitems, hclose, expect]

theorem finds_dotted {cs rest more behind behind' : List Char} {values : List (Option Form)}
    {tail : Option Form} (h : Reads cs values rest) (hpoint : skipBlanks rest = '.' :: more)
    (htail : Finds (skipBlanks more) tail behind) (hclose : skipBlanks behind = ')' :: behind') :
    Finds ('(' :: cs) ((values.mapM id).bind fun items => tail.map (.dotted items)) behind' := by
  obtain ⟨data, hvalues, hmany⟩ := h.many
  obtain ⟨d, hvalue, hdatum⟩ := htail.datum
  have hmore := length_lt_of_skipBlanks hpoint
  have hbehind' := length_lt_of_skipBlanks hclose
  have hbehind := htail.1
  have hskip := length_skipBlanks_le more
  have hrest := h.length_le
  refine ⟨by simp only [List.length_cons]; omega, .dotted data d,
    by rw [Datum.value?_dotted, hvalues, hvalue], fun depth far hdepth => ?_⟩
  rw [List.length_cons] at hdepth
  obtain ⟨far', hitems⟩ := hmany depth (cs.length + 1) (min far (cs.length + 1)) hdepth
    (Nat.lt_add_one cs.length)
  obtain ⟨far'', hlast⟩ := hdatum depth far' (by omega)
  simp [datum_list, listItems, hitems, hpoint, hlast, hclose, expect]

theorem finds_tuple {cs rest behind : List Char} {values : List (Option Form)}
    (h : Reads cs values rest) (hclose : skipBlanks rest = ')' :: behind) :
    Finds ('#' :: '(' :: cs) ((values.mapM id).map .tuple) behind := by
  obtain ⟨data, hvalues, hmany⟩ := h.many
  have hbehind := length_lt_of_skipBlanks hclose
  have hrest := h.length_le
  refine ⟨by simp only [List.length_cons]; omega, .tuple data,
    by rw [Datum.value?_tuple, hvalues], fun depth far hdepth => ?_⟩
  simp only [List.length_cons] at hdepth
  obtain ⟨far', hitems⟩ := hmany depth (cs.length + 1) (min far (cs.length + 2)) (by omega)
    (Nat.lt_add_one cs.length)
  simp [datum_tuple, tupleItems, hitems, hclose, expect, orElse]

theorem skipBlanks_close (rest : List Char) : skipBlanks (')' :: rest) = ')' :: rest :=
  skipBlanks_cons rfl (by decide) (by decide) rest

theorem byteChars_eq (byte : UInt8) : Form.byteChars byte = integerChars byte.toNat := by
  simp [integerChars, Form.byteChars]

theorem isRun_byteChars (byte : UInt8) : IsRun (Form.byteChars byte) :=
  byteChars_eq byte ▸ isRun_integerChars byte.toNat

theorem byteLiteral_byteChars (byte : UInt8) {rest : List Char} (hrest : Breaks rest) (far : Nat) :
    ∃ far', byteLiteral far (Form.byteChars byte ++ rest) =
      (some (⟨Form.byteChars byte, rest.length⟩, rest), far') := by
  have hrun := isRun_byteChars byte
  have hinteger : isIntegerText (Form.byteChars byte) = true := by
    rw [byteChars_eq]
    exact isIntegerText_integerChars byte.toNat
  rw [byteLiteral, hrun.takeWhile_append hrest, hrun.dropWhile_append hrest, if_pos hinteger]
  exact ⟨_, rfl⟩

/-- The bytes of a binary are read up to its parenthesis, blanks before the first aside. -/
theorem many_bytes {bytes : List UInt8} {cs : List Char} (rest : List Char)
    (h : Joined (bytes.map Form.byteChars) cs) :
    ∃ literals : List Literal, literals.mapM (Datum.valued .byte · byte?) = .ok bytes ∧
      ∀ cs' count far, skipBlanks cs' = skipBlanks (cs ++ ')' :: rest) → cs'.length < count →
        ∃ behind far', many byteLiteral count far cs' = ((literals, behind), far') ∧
          skipBlanks behind = ')' :: rest := by
  induction bytes generalizing cs with
  | nil =>
    cases h
    refine ⟨[], rfl, fun cs' count far hskip hcount => ?_⟩
    obtain ⟨count, rfl⟩ := Nat.exists_eq_add_one_of_ne_zero (Nat.ne_zero_of_lt hcount)
    rw [List.nil_append, skipBlanks_close] at hskip
    refine ⟨cs', min far (rest.length + 1), ?_, hskip⟩
    rw [many, hskip]
    rfl
  | cons byte bytes ih =>
    obtain ⟨cs₁, behind, hcs, hbreaks, hjoined, hskip₁⟩ : ∃ cs₁ behind,
        cs ++ ')' :: rest = Form.byteChars byte ++ behind ∧ Breaks behind ∧
        Joined (bytes.map Form.byteChars) cs₁ ∧
        skipBlanks behind = skipBlanks (cs₁ ++ ')' :: rest) := by
      rcases h.uncons with ⟨hnil, rfl⟩ | ⟨gap, joined, -, hgap, hjoined, rfl⟩
      · exact ⟨[], ')' :: rest, rfl, .close rest, hnil ▸ .nil, rfl⟩
      · refine ⟨joined, gap ++ (joined ++ ')' :: rest), by simp, hgap.breaks _, hjoined, ?_⟩
        exact skipBlanks_blank hgap.blank _
    obtain ⟨literals, hvalues, hmany⟩ := ih hjoined
    refine ⟨⟨Form.byteChars byte, behind.length⟩ :: literals, ?_,
      fun cs' count far hskip hcount => ?_⟩
    · have hbyte : Datum.valued .byte ⟨Form.byteChars byte, behind.length⟩ byte? = .ok byte := by
        simp [Datum.valued, Form.byteChars, byte?_naturalChars]
      rw [List.mapM_cons, hbyte, hvalues]
      rfl
    · obtain ⟨count, rfl⟩ := Nat.exists_eq_add_one_of_ne_zero (Nat.ne_zero_of_lt hcount)
      rw [hcs, skipBlanks_run (isRun_byteChars byte) hbreaks] at hskip
      obtain ⟨far', hfirst⟩ := byteLiteral_byteChars byte hbreaks far
      have hlength : behind.length < count := by
        have hle := length_skipBlanks_le cs'
        have hpos := List.length_pos_of_ne_nil (isRun_byteChars byte).ne_nil
        rw [hskip, List.length_append] at hle
        omega
      obtain ⟨last, far'', hothers, hlast⟩ := hmany behind count far' hskip₁ hlength
      refine ⟨last, far'', ?_, hlast⟩
      rw [many, hskip, hfirst]
      simp only [hothers]

theorem finds_binary {bytes : List UInt8} {cs : List Char} (rest : List Char)
    (h : Joined (bytes.map Form.byteChars) cs) :
    Finds ('#' :: 'B' :: '(' :: (cs ++ ')' :: rest)) (some (.binary bytes)) rest := by
  obtain ⟨literals, hvalues, hmany⟩ := many_bytes rest h
  refine ⟨by simp; omega, .binary literals, ?_, fun depth far _ => ?_⟩
  · rw [Datum.value?, Datum.form, hvalues]
    rfl
  · generalize cs ++ ')' :: rest = text at hmany
    obtain ⟨behind, far', hbytes, hclose⟩ := hmany text (text.length + 1)
      (min far (text.length + 3)) rfl (Nat.lt_add_one text.length)
    simp [datum_binary, binaryItems, hbytes, hclose, expect, orElse]

/-- What an abbreviation stands for. -/
def abbreviated (head : String) (value : Option Form) : Option Form :=
  value.map fun value => .call head [value]

theorem wrapped_of_finds {cs rest : List Char} {value : Option Form} (head : String)
    (h : Finds (skipBlanks cs) value rest) :
    ∃ d : Datum, d.value? = abbreviated head value ∧ ∀ depth far, cs.length < depth →
      ∃ far', wrapped head (datum depth) far cs = (some (d, rest), far') := by
  obtain ⟨d, hvalue, hdatum⟩ := h.datum
  refine ⟨.wrapped head d, by rw [Datum.value?_wrapped, hvalue, abbreviated],
    fun depth far hdepth => ?_⟩
  obtain ⟨far', hinner⟩ := hdatum depth far (lt_of_le_of_lt (length_skipBlanks_le cs) hdepth)
  exact ⟨far', by simp [wrapped, hinner]⟩

/-- A character that wraps the form behind it. -/
theorem finds_wrapped {c : Char} {cs rest : List Char} {head : String} {value : Option Form}
    (hdatum : ∀ depth far, datum (depth + 1) far (c :: cs) =
      wrapped head (datum depth) (min far (cs.length + 1)) cs)
    (h : Finds (skipBlanks cs) value rest) : Finds (c :: cs) (abbreviated head value) rest := by
  obtain ⟨d, hvalue, hwrapped⟩ := wrapped_of_finds head h
  have hskip := length_skipBlanks_le cs
  have hrest := h.1
  refine ⟨by simp only [List.length_cons]; omega, d, hvalue, fun depth far hdepth => ?_⟩
  obtain ⟨far', hfound⟩ := hwrapped depth (min far (cs.length + 1)) hdepth
  rw [hdatum, hfound]

theorem finds_quote {cs rest : List Char} {value : Option Form}
    (h : Finds (skipBlanks cs) value rest) :
    Finds ('\x27' :: cs) (abbreviated "quote" value) rest :=
  finds_wrapped (fun depth far => datum_quote depth far cs) h

theorem finds_backquote {cs rest : List Char} {value : Option Form}
    (h : Finds (skipBlanks cs) value rest) :
    Finds ('\x60' :: cs) (abbreviated "backquote" value) rest :=
  finds_wrapped (fun depth far => datum_backquote depth far cs) h

theorem finds_comma {cs rest : List Char} {value : Option Form}
    (h : Finds (skipBlanks cs) value rest) (hat : cs.head? ≠ some '@') :
    Finds (',' :: cs) (abbreviated "comma" value) rest := by
  have hcomma : ∀ more, cs = '@' :: more → False := by
    rintro more rfl
    exact hat rfl
  exact finds_wrapped (fun depth far => datum.eq_5 far depth cs hcomma) h

theorem finds_commaAt {cs rest : List Char} {value : Option Form}
    (h : Finds (skipBlanks cs) value rest) :
    Finds (',' :: '@' :: cs) (abbreviated "comma-at" value) rest := by
  obtain ⟨d, hvalue, hwrapped⟩ := wrapped_of_finds "comma-at" h
  have hskip := length_skipBlanks_le cs
  have hrest := h.1
  refine ⟨by simp only [List.length_cons]; omega, d, hvalue, fun depth far hdepth => ?_⟩
  simp only [List.length_cons] at hdepth
  obtain ⟨far', hfound⟩ := hwrapped depth (min far (cs.length + 2)) (by omega)
  rw [datum_commaAt, hfound, orElse]
  simp

/-- With no form behind the mark the mark belongs to the symbol. -/
theorem finds_comma_mark {cs rest : List Char} {value : Option Form}
    (hmisses : Misses (skipBlanks cs)) (h : Finds ('@' :: cs) value rest) :
    Finds (',' :: '@' :: cs) (abbreviated "comma" value) rest := by
  have hself := skipBlanks_cons (c := '@') rfl (by decide) (by decide) cs
  obtain ⟨d, hvalue, hwrapped⟩ := wrapped_of_finds "comma" (hself.symm ▸ h)
  have hskip := length_skipBlanks_le cs
  have hrest := h.1
  simp only [List.length_cons] at hrest
  refine ⟨by simp only [List.length_cons]; omega, d, hvalue, fun depth far hdepth => ?_⟩
  simp only [List.length_cons] at hdepth
  obtain ⟨far', hnone⟩ := hmisses.datum depth (min far (cs.length + 2)) (by omega)
  have hcs : ('@' :: cs).length < depth := by
    simp only [List.length_cons]
    omega
  obtain ⟨far'', hfound⟩ := hwrapped depth far' hcs
  simp [datum_commaAt, wrapped.eq_1 "comma-at", hnone, orElse, hfound]

end Reader

end HeaderForms
