-- SUMMARY: Reading the texts of atoms: numbers, bare and barred symbols, and strings.
import HeaderForms.Form.Printer
import HeaderForms.Form.Reader
import HeaderForms.Proofs.Float64.Text

/-!
# Atoms read back

An atom is read as the run of symbol characters that its text starts with, so its value depends on
the run alone. The runs that are printed for numbers have the numbers as values, and a bare symbol
is one whose run has itself as value. Quoted texts are read up to their closing quote.
-/

namespace HeaderForms

/-- The form of a datum, if all its literals have values. -/
def Datum.value? (datum : Datum) : Option Form :=
  datum.form.toOption

namespace Reader

open Numeral Float64

/-! ## Characters -/

theorem isBlank_of_isSpace {c : Char} (h : isSpace c = true) : Text.isBlank c = true := by
  simp only [isSpace, Bool.or_eq_true, decide_eq_true_eq] at h
  rcases h with ((rfl | rfl) | rfl) | rfl <;> rfl

/-- The characters that end a run of symbol characters. -/
def boundaries : List Char :=
  [' ', '\t', '\r', '\n'] ++ delimiters

theorem isSymbolChar_iff {c : Char} : isSymbolChar c = true ↔ c ∉ boundaries := by
  simp [isSymbolChar, isSpace, boundaries, and_assoc]

/-- A property of characters that no boundary has is one of symbol characters only. -/
theorem isSymbolChar_of {p : Char → Bool} {c : Char} (hp : boundaries.any p = false)
    (h : p c = true) : isSymbolChar c = true := by
  rw [isSymbolChar_iff]
  intro hmem
  exact List.any_eq_false.1 hp c hmem h

theorem isSymbolChar_of_isDigit {c : Char} (h : isDigit c = true) : isSymbolChar c = true :=
  isSymbolChar_of rfl h

/-- What may stand behind the text of a form: a blank, a closing parenthesis, or nothing. -/
inductive Breaks : List Char → Prop where
  | nil : Breaks []
  | space (cs : List Char) : Breaks (' ' :: cs)
  | newline (cs : List Char) : Breaks ('\n' :: cs)
  | close (cs : List Char) : Breaks (')' :: cs)

theorem Breaks.takeWhile_isSymbolChar {rest : List Char} (h : Breaks rest) :
    rest.takeWhile isSymbolChar = [] := by
  cases h <;> rfl

theorem Breaks.dropWhile_isSymbolChar {rest : List Char} (h : Breaks rest) :
    rest.dropWhile isSymbolChar = rest := by
  cases h <;> rfl

/-! ## Shapes of numbers -/

theorem isDigits_iff {cs : List Char} : isDigits cs = true ↔ IsDigits cs := by
  simp [isDigits, IsDigits]

theorem unsigned_integerChars (n : Int) : unsigned (integerChars n) = naturalChars n.natAbs := by
  unfold integerChars
  split
  case isTrue => rfl
  case isFalse => rw [unsigned, splitSign_naturalChars]

theorem isIntegerText_integerChars (n : Int) : isIntegerText (integerChars n) = true := by
  rw [isIntegerText, unsigned_integerChars, isDigits_iff]
  exact isDigits_naturalChars n.natAbs

theorem IsDigits.takeWhile_eq {cs : List Char} (h : IsDigits cs) : cs.takeWhile isDigit = cs := by
  have happend := @IsDigits.takeWhile_append cs [] h
  rwa [List.append_nil, List.takeWhile_nil, List.append_nil] at happend

theorem IsDigits.dropWhile_eq {cs : List Char} (h : IsDigits cs) : cs.dropWhile isDigit = [] := by
  have happend := @IsDigits.dropWhile_append cs [] h
  rwa [List.append_nil, List.dropWhile_nil] at happend

theorem isFloatText_integerChars (n : Int) : isFloatText (integerChars n) = false := by
  have hdigits := isDigits_naturalChars n.natAbs
  simp [isFloatText, unsigned_integerChars, IsDigits.dropWhile_eq hdigits, isExponent]

theorem isExponent_of_writesExponent {tail : List Char} {e : Int} (h : WritesExponent tail e) :
    tail = [] ∨ isExponent tail = true := by
  cases h with
  | none => exact .inl rfl
  | some e =>
    have hdigits := isDigits_iff.2 (isDigits_naturalChars e.natAbs)
    exact .inr (by simp [isExponent, unsigned_integerChars, hdigits])

theorem isFloatText_of_writesDecimal {cs : List Char} {n : Nat} {s : Int}
    (h : WritesDecimal cs n s) (negative : Bool) :
    isFloatText ((if negative then ['-'] else []) ++ cs) = true := by
  have hunsigned : unsigned ((if negative then ['-'] else []) ++ cs) = cs := by
    cases negative with
    | false => simp [unsigned, h.splitSign_eq]
    | true => rfl
  rw [isFloatText, hunsigned]
  cases h with
  | @point whole part tail e hwhole hpart htail =>
    have htake : ('.' :: (part ++ tail)).takeWhile isDigit = [] := rfl
    have hdrop : ('.' :: (part ++ tail)).dropWhile isDigit = '.' :: (part ++ tail) := rfl
    have htail' := isExponent_of_writesExponent htail
    simp [hwhole.takeWhile_append, hwhole.dropWhile_append, htake, hdrop, hpart.takeWhile_append,
      hpart.dropWhile_append, htail.takeWhile_isDigit, htail.dropWhile_isDigit, hwhole.1, hpart.1,
      htail']
  | exponent e hwhole =>
    have hexp := WritesExponent.some s
    have htail := (isExponent_of_writesExponent hexp).resolve_left (by simp)
    simp only [hwhole.takeWhile_append, hwhole.dropWhile_append, hexp.takeWhile_isDigit,
      hexp.dropWhile_isDigit]
    simp [hwhole.1, htail]

/-! ## Numbers have values -/

theorem exponentPart?_isSome {tail : List Char} (h : tail = [] ∨ isExponent tail = true) :
    (exponentPart? tail).isSome = true := by
  rcases h with rfl | h
  · rfl
  · cases tail with
    | nil => cases h
    | cons c cs =>
      simp only [isExponent, Bool.and_eq_true] at h
      have hdigits := isDigits_iff.1 h.2
      rw [unsigned] at hdigits
      simp [exponentPart?, h.1, natural?_of_digits hdigits.1 hdigits.2]

theorem parse?_isSome {cs : List Char} (h : (decimal? (unsigned cs)).isSome = true) :
    (parse? cs).isSome = true := by
  rw [unsigned] at h
  obtain ⟨⟨n, s⟩, hdecimal⟩ := Option.isSome_iff_exists.1 h
  simp [parse?, hdecimal]

/-- A text with the shape of a float has a value. -/
theorem parse?_isSome_of_isFloatText {cs : List Char} (h : isFloatText cs = true) :
    (parse? cs).isSome = true := by
  apply parse?_isSome
  simp only [isFloatText, Bool.and_eq_true, Bool.not_eq_true'] at h
  obtain ⟨hwhole, hrest⟩ := h
  simp only [decimal?, hwhole, Bool.false_and, Bool.false_eq_true, if_false, Option.isSome_map]
  cases hrun : (unsigned cs).dropWhile isDigit with
  | nil =>
    rw [hrun] at hrest
    cases hrest
  | cons c more =>
    rw [hrun] at hrest
    by_cases hpoint : c = '.'
    · rw [hpoint] at hrest ⊢
      obtain ⟨-, htail⟩ := Bool.and_eq_true_iff.1 hrest
      simp only [Bool.or_eq_true, List.isEmpty_iff] at htail
      exact exponentPart?_isSome htail
    · simp only [List.cons.injEq, hpoint, false_and, imp_self, implies_true] at hrest ⊢
      exact exponentPart?_isSome (.inr hrest)

theorem parse?_isSome_of_isIntegerText {cs : List Char} (h : isIntegerText cs = true) :
    (parse? cs).isSome = true := by
  apply parse?_isSome
  have hdigits := isDigits_iff.1 h
  simp only [decimal?, IsDigits.takeWhile_eq hdigits, IsDigits.dropWhile_eq hdigits]
  simp [hdigits.1, exponentPart?]

/-! ## Runs -/

/-- The value of a run of symbol characters that is read as an atom. -/
def runValue (run : List Char) : Option Form :=
  if isFloatText run then (parse? run).map .float
  else if isIntegerText run then (int64? run).map .integer
  else some (.symbol (String.ofList run))

/-- A run that is read as an atom whatever breaks it off. -/
structure IsRun (run : List Char) : Prop where
  ne_nil : run ≠ []
  ne_point : run ≠ ['.']
  symbolChars : ∀ c ∈ run, isSymbolChar c = true

theorem IsRun.takeWhile_append {run rest : List Char} (h : IsRun run) (hrest : Breaks rest) :
    (run ++ rest).takeWhile isSymbolChar = run := by
  rw [List.takeWhile_append_of_pos h.symbolChars, hrest.takeWhile_isSymbolChar, List.append_nil]

theorem IsRun.dropWhile_append {run rest : List Char} (h : IsRun run) (hrest : Breaks rest) :
    (run ++ rest).dropWhile isSymbolChar = rest := by
  rw [List.dropWhile_append_of_pos h.symbolChars, hrest.dropWhile_isSymbolChar]

theorem IsRun.atom?_append {run rest : List Char} (h : IsRun run) (hrest : Breaks rest) :
    ∃ d, atom? (run ++ rest) = some (d, rest) ∧ d.value? = runValue run := by
  simp only [atom?, h.takeWhile_append hrest, h.dropWhile_append hrest, runValue]
  rw [if_neg (by simp [h.ne_nil, h.ne_point])]
  split
  case isTrue =>
    refine ⟨_, rfl, ?_⟩
    cases hvalue : parse? run <;> simp [Datum.value?, Datum.form, Datum.valued, hvalue] <;> rfl
  case isFalse =>
    split
    case isTrue =>
      refine ⟨_, rfl, ?_⟩
      cases hvalue : int64? run <;> simp [Datum.value?, Datum.form, Datum.valued, hvalue] <;> rfl
    case isFalse => exact ⟨_, rfl, rfl⟩

theorem atom?_point {rest : List Char} (hrest : Breaks rest) : atom? ('.' :: rest) = none := by
  have htake : ('.' :: rest).takeWhile isSymbolChar = ['.'] := by
    rw [List.takeWhile_cons_of_pos rfl, hrest.takeWhile_isSymbolChar]
  simp [atom?, htake]

theorem runValue_of_isBare {name : List Char} (h : Form.isBare name = true) :
    runValue name = some (.symbol (String.ofList name)) := by
  simp only [Form.isBare, Bool.and_eq_true, Option.isNone_iff_eq_none] at h
  have hnone := h.1.2
  have hfloat : isFloatText name = false := by
    by_contra hne
    have hsome := parse?_isSome_of_isFloatText (by simpa using hne)
    simp [hnone] at hsome
  have hinteger : isIntegerText name = false := by
    by_contra hne
    have hsome := parse?_isSome_of_isIntegerText (by simpa using hne)
    simp [hnone] at hsome
  simp [runValue, hfloat, hinteger]

theorem runValue_integerChars (n : Int) :
    runValue (integerChars n) = if inInt64 n then some (.integer n) else none := by
  rw [runValue, isFloatText_integerChars, isIntegerText_integerChars, if_neg Bool.false_ne_true,
    if_pos rfl, int64?_integerChars]
  split <;> rfl

/-- The text of a float reads back, and a word stands for a number that is not finite. -/
theorem runValue_float (x : Float64) :
    runValue (x.chars .display) = some (if x.isFinite then .float x else .symbol x.text) := by
  cases hfinite : x.isFinite with
  | true =>
    obtain ⟨cs, n, s, htext, hwrites, hx⟩ := exists_writesDecimal .display hfinite
    rw [runValue, parse?_chars .display hfinite, htext, isFloatText_of_writesDecimal hwrites]
    rfl
  | false =>
    have hword := chars_of_not_finite .display hfinite
    rw [Float64.text]
    generalize x.chars .display = cs at hword
    simp only [List.mem_cons, List.not_mem_nil, or_false] at hword
    rcases hword with rfl | rfl | rfl <;> rfl

/-! ## Characters of runs -/

theorem isSymbolChar_of_mem_integerChars {n : Int} {c : Char} (h : c ∈ integerChars n) :
    isSymbolChar c = true := by
  unfold integerChars at h
  split at h
  case isTrue =>
    rcases List.mem_cons.1 h with rfl | h
    · rfl
    · exact isSymbolChar_of_isDigit (isDigit_of_mem_naturalChars h)
  case isFalse => exact isSymbolChar_of_isDigit (isDigit_of_mem_naturalChars h)

theorem isSymbolChar_of_mem_writesExponent {tail : List Char} {e : Int}
    (h : WritesExponent tail e) {c : Char} (hc : c ∈ tail) : isSymbolChar c = true := by
  cases h with
  | none => cases hc
  | some e =>
    rcases List.mem_cons.1 hc with rfl | hc
    · rfl
    · exact isSymbolChar_of_mem_integerChars hc

theorem isSymbolChar_of_mem_writesDecimal {cs : List Char} {n : Nat} {s : Int}
    (h : WritesDecimal cs n s) {c : Char} (hc : c ∈ cs) : isSymbolChar c = true := by
  cases h with
  | point hwhole hpart htail =>
    simp only [List.mem_append, List.mem_cons] at hc
    rcases hc with hc | rfl | hc | hc
    · exact isSymbolChar_of_isDigit (hwhole.2 c hc)
    · rfl
    · exact isSymbolChar_of_isDigit (hpart.2 c hc)
    · exact isSymbolChar_of_mem_writesExponent htail hc
  | exponent e hwhole =>
    rcases List.mem_append.1 hc with hc | hc
    · exact isSymbolChar_of_isDigit (hwhole.2 c hc)
    · exact isSymbolChar_of_mem_writesExponent (.some _) hc

/-- A run that starts with a digit or a sign before a digit is one. -/
theorem isRun_of_digit {run : List Char} (negative : Bool) {c : Char} {rest : List Char}
    (hrun : run = (if negative then ['-'] else []) ++ c :: rest) (hc : isDigit c = true)
    (hchars : ∀ d ∈ run, isSymbolChar d = true) : IsRun run := by
  have hpoint : c ≠ '.' := by
    rintro rfl
    cases hc
  cases negative <;> refine ⟨?_, ?_, hchars⟩ <;> simp [hrun, hpoint]

theorem isRun_integerChars (n : Int) : IsRun (integerChars n) := by
  obtain ⟨c, rest, hcons, hc⟩ := (isDigits_naturalChars n.natAbs).exists_cons
  have hsign : integerChars n = (if decide (n < 0) then ['-'] else []) ++ c :: rest := by
    rw [integerChars, hcons]
    simp only [decide_eq_true_eq]
    split <;> rfl
  exact isRun_of_digit (decide (n < 0)) hsign hc fun _ => isSymbolChar_of_mem_integerChars

theorem isRun_float (x : Float64) : IsRun (x.chars .display) := by
  cases hfinite : x.isFinite with
  | true =>
    obtain ⟨cs, n, s, htext, hwrites, -⟩ := exists_writesDecimal .display hfinite
    obtain ⟨c, rest, rfl, hc⟩ := hwrites.exists_cons
    refine isRun_of_digit x.isNegative htext hc fun d hd => ?_
    rw [htext] at hd
    rcases List.mem_append.1 hd with hd | hd
    · cases hneg : x.isNegative <;> simp only [hneg] at hd
      · cases hd
      · rw [List.mem_singleton.1 hd]
        rfl
    · exact isSymbolChar_of_mem_writesDecimal hwrites hd
  | false =>
    have hword := chars_of_not_finite .display hfinite
    generalize x.chars .display = cs at hword
    simp only [List.mem_cons, List.not_mem_nil, or_false] at hword
    rcases hword with rfl | rfl | rfl <;>
      exact ⟨by simp, by simp, fun c hc => List.all_eq_true.1 rfl c hc⟩

theorem isRun_of_isBare {name : List Char} (h : Form.isBare name = true) : IsRun name := by
  simp only [Form.isBare, Bool.and_eq_true, bne_iff_ne, ne_eq, Bool.not_eq_true',
    List.isEmpty_eq_false_iff] at h
  obtain ⟨⟨⟨⟨⟨hne, hpoint⟩, -⟩, -⟩, -⟩, hchars⟩ := h
  refine ⟨hne, hpoint, fun c hc => ?_⟩
  have hc' := List.all_eq_true.1 hchars c hc
  simp only [Bool.and_eq_true, Bool.not_eq_true'] at hc'
  obtain ⟨⟨hblank, -⟩, hdelimiter⟩ := hc'
  have hspace : isSpace c = false := by
    by_contra hne
    have := isBlank_of_isSpace (by simpa using hne)
    rw [hblank] at this
    cases this
  rw [isSymbolChar, hspace, Bool.not_false, Bool.true_and, Bool.not_eq_true']
  exact hdelimiter

/-! ## First characters -/

theorem head?_of_digit (negative : Bool) {c : Char} (rest : List Char) (hc : isDigit c = true) :
    ((if negative then ['-'] else []) ++ c :: rest).head? ≠ some '@' := by
  cases negative with
  | true => simp
  | false =>
    rintro ⟨⟩
    cases hc

theorem head?_integerChars (n : Int) : (integerChars n).head? ≠ some '@' := by
  obtain ⟨c, rest, hcons, hc⟩ := (isDigits_naturalChars n.natAbs).exists_cons
  have hdigit := head?_of_digit (decide (n < 0)) rest hc
  rw [integerChars, hcons]
  simp only [decide_eq_true_eq] at hdigit
  split <;> simp_all

theorem head?_float (x : Float64) : (x.chars .display).head? ≠ some '@' := by
  cases hfinite : x.isFinite with
  | true =>
    obtain ⟨cs, n, s, htext, hwrites, -⟩ := exists_writesDecimal .display hfinite
    obtain ⟨c, rest, rfl, hc⟩ := hwrites.exists_cons
    rw [htext]
    exact head?_of_digit x.isNegative rest hc
  | false =>
    have hword := chars_of_not_finite .display hfinite
    generalize x.chars .display = cs at hword
    simp only [List.mem_cons, List.not_mem_nil, or_false] at hword
    rcases hword with rfl | rfl | rfl <;> simp

/-! ## Quoted texts -/

theorem enclosed?_escape (close c : Char) (cs : List Char) :
    enclosed? close ('\\' :: c :: cs) =
      (enclosed? close cs).map fun (text, rest) => ('\\' :: c :: text, rest) :=
  rfl

theorem enclosed?_cons {close c : Char} (hclose : c ≠ close) (hslash : c ≠ '\\')
    (cs : List Char) :
    enclosed? close (c :: cs) = (enclosed? close cs).map fun (text, rest) => (c :: text, rest) := by
  rw [enclosed?.eq_2 _ _ _ fun _ _ h => absurd h hslash, if_neg hclose, if_neg hslash]

theorem enclosed?_close {close : Char} (hclose : close ≠ '\\') (rest : List Char) :
    enclosed? close (close :: rest) = some ([], rest) := by
  rw [enclosed?.eq_2 _ _ _ fun _ _ h => absurd h hclose, if_pos rfl]

theorem stringEscaped_of_plain {c : Char}
    (h : c ∉ ['"', '\\', '\n', '\t', '\r']) : Form.stringEscaped c = [c] := by
  simp only [List.mem_cons, List.not_mem_nil, or_false, not_or] at h
  obtain ⟨hquote, hslash, hn, ht, hr⟩ := h
  exact Form.stringEscaped.eq_6 c hquote hslash hn ht hr

/-- A string is printed up to a quote that none of its characters is taken for. -/
theorem enclosed?_string (text rest : List Char) :
    enclosed? '"' (text.flatMap Form.stringEscaped ++ '"' :: rest) =
      some (text.flatMap Form.stringEscaped, rest) := by
  induction text with
  | nil => exact enclosed?_close (by decide) rest
  | cons c cs ih =>
    rw [List.flatMap_cons, List.append_assoc]
    by_cases hc : c ∈ ['"', '\\', '\n', '\t', '\r']
    · simp only [List.mem_cons, List.not_mem_nil, or_false] at hc
      rcases hc with rfl | rfl | rfl | rfl | rfl <;>
        simp [Form.stringEscaped, enclosed?_escape, ih]
    · rw [stringEscaped_of_plain hc, List.singleton_append]
      simp only [List.mem_cons, List.not_mem_nil, or_false, not_or] at hc
      rw [enclosed?_cons hc.1 hc.2.1, ih]
      rfl

theorem unescapeString_string (text : List Char) :
    unescapeString (text.flatMap Form.stringEscaped) = text := by
  induction text with
  | nil => rfl
  | cons c cs ih =>
    rw [List.flatMap_cons]
    by_cases hc : c ∈ ['"', '\\', '\n', '\t', '\r']
    · simp only [List.mem_cons, List.not_mem_nil, or_false] at hc
      rcases hc with rfl | rfl | rfl | rfl | rfl <;> simp [Form.stringEscaped, unescapeString, ih]
    · rw [stringEscaped_of_plain hc, List.singleton_append]
      have hslash : c ≠ '\\' := by
        rintro rfl
        simp at hc
      simp [unescapeString, hslash, ih]

theorem barEscaped_of_plain {c : Char} (hbar : c ≠ '|') (hslash : c ≠ '\\') :
    Form.barEscaped c = [c] := by
  simp [Form.barEscaped, hbar, hslash]

/-- A barred symbol is printed up to a bar that none of its characters is taken for. -/
theorem enclosed?_bars (name rest : List Char) :
    enclosed? '|' (name.flatMap Form.barEscaped ++ '|' :: rest) =
      some (name.flatMap Form.barEscaped, rest) := by
  induction name with
  | nil => exact enclosed?_close (by decide) rest
  | cons c cs ih =>
    rw [List.flatMap_cons, List.append_assoc]
    by_cases hbar : c = '|'
    · simp [hbar, Form.barEscaped, enclosed?_escape, ih]
    by_cases hslash : c = '\\'
    · simp [hslash, Form.barEscaped, enclosed?_escape, ih]
    rw [barEscaped_of_plain hbar hslash, List.singleton_append, enclosed?_cons hbar hslash, ih]
    rfl

theorem unescapeSymbol_bars (name : List Char) :
    unescapeSymbol (name.flatMap Form.barEscaped) = name := by
  induction name with
  | nil => rfl
  | cons c cs ih =>
    rw [List.flatMap_cons]
    by_cases hbar : c = '|'
    · simp [hbar, Form.barEscaped, unescapeSymbol, ih]
    by_cases hslash : c = '\\'
    · simp [hslash, Form.barEscaped, unescapeSymbol, ih]
    rw [barEscaped_of_plain hbar hslash, List.singleton_append]
    simp [unescapeSymbol, hslash, ih]

end Reader

end HeaderForms
