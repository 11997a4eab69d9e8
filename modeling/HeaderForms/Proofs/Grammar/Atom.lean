-- SUMMARY: The numbers, symbols and quoted texts that the grammar matches are those that are read.
import HeaderForms.Proofs.Grammar.Builder
import HeaderForms.Proofs.Grammar.Scan

/-!
# Atoms of the grammar

The grammar tries a float, an integer and a symbol at the same place. Each of them ends where no
symbol character follows, so what they match is told from the longest run of symbol characters
there, as the reader tells it.
-/

namespace HeaderForms.Grammar

open Pattern Reader Numeral

/-! ## Runs -/

/-- A text that breaks off a run of symbol characters before it. -/
def Ends (rest : List Char) : Prop :=
  rest.head?.any isSymbolChar = false

theorem ends_dropWhile (cs : List Char) : Ends (cs.dropWhile isSymbolChar) := by
  have hfirst := List.head?_dropWhile_not isSymbolChar cs
  rw [Ends]
  cases hdrop : (cs.dropWhile isSymbolChar).head? with
  | none => rfl
  | some c =>
    rw [hdrop] at hfirst
    exact hfirst

theorem isSymbolChar_of_mem_run (cs : List Char) :
    ∀ c ∈ cs.takeWhile isSymbolChar, isSymbolChar c = true :=
  fun _ => List.mem_takeWhile_imp

theorem Ends.holds_eq_false {holds : Char → Bool} {c : Char} {rest : List Char}
    (h : Ends (c :: rest)) (hholds : boundaries.any holds = false) :
    holds c = false := by
  by_contra hc
  have hsymbol := isSymbolChar_of hholds (by simpa using hc)
  rw [Ends, List.head?_cons, Option.any_some, hsymbol] at h
  cases h

/-- What the scanner takes of a run does not depend on what breaks the run off. -/
def Local (f : Scan) : Prop :=
  ∀ run rest, Ends rest → f (run ++ rest) = (f run).map (· ++ rest)

namespace Local

variable {f g : Scan} {holds : Char → Bool}

theorem some : Local some := fun _ _ _ =>
  rfl

theorem next (hholds : boundaries.any holds = false) :
    Local (Scan.next holds) := by
  intro run rest hrest
  cases run with
  | cons c run =>
    simp only [List.cons_append, Scan.next]
    split <;> rfl
  | nil =>
    cases rest with
    | nil => rfl
    | cons c rest => simp [Scan.next, hrest.holds_eq_false hholds]

theorem dropping (hholds : boundaries.any holds = false) :
    Local (Scan.dropping holds) := by
  intro run rest hrest
  induction run with
  | cons c run ih =>
    simp only [Scan.dropping, List.cons_append, List.dropWhile_cons] at ih ⊢
    split
    · exact ih
    · rfl
  | nil =>
    cases rest with
    | nil => rfl
    | cons c rest => simp [Scan.dropping, hrest.holds_eq_false hholds]

theorem andThen (hf : Local f) (hg : Local g) : Local (f.andThen g) := by
  intro run rest hrest
  rw [Scan.andThen, Scan.andThen, hf run rest hrest]
  cases f run with
  | none => rfl
  | some behind => exact hg behind rest hrest

theorem orElse (hf : Local f) (hg : Local g) : Local (f.orElse g) := by
  intro run rest hrest
  rw [Scan.orElse, Scan.orElse, hf run rest hrest, hg run rest hrest]
  cases f run <;> rfl

theorem without (hf : Local f) : Local f.without := by
  intro run rest hrest
  rw [Scan.without, Scan.without, hf run rest hrest, Option.isSome_map]
  split <;> rfl

theorem run (hholds : boundaries.any holds = false) : Local (Scan.run holds) :=
  (next hholds).andThen (dropping hholds)

end Local

/-! ## Numbers -/

namespace Scan

/-- What follows a sign, or all of it. -/
def signed : Scan := fun cs =>
  some (unsigned cs)

def digits : Scan :=
  run isDigit

def integer : Scan :=
  signed.andThen digits

def exponent : Scan :=
  (next fun c => c == 'e' || c == 'E').andThen integer

def float : Scan :=
  integer.andThen (((next (· == '.')).andThen (digits.andThen (exponent.orElse some))).orElse
    exponent)

end Scan

theorem signed_eq : Scan.signed = (Scan.next fun c => c == '-' || c == '+').orElse some := by
  funext cs
  unfold Scan.signed unsigned splitSign
  split
  case h_1 => rfl
  case h_2 => rfl
  case h_3 hminus hplus =>
    cases cs with
    | nil => rfl
    | cons c cs =>
      have hc : c ≠ '-' ∧ c ≠ '+' := ⟨fun h => hminus cs (h ▸ rfl), fun h => hplus cs (h ▸ rfl)⟩
      simp [Scan.orElse, Scan.next, hc]

theorem scans_sign : Scans (optional sign) Scan.signed :=
  signed_eq ▸ ((Scans.char '-').choice_next (Scans.char '+')).optional

theorem scans_digits : Scans (plus digit) Scan.digits :=
  (Scans.one isDigit).plus_next

theorem scans_integerText : Scans integerText Scan.integer :=
  scans_sign.andThen scans_digits

theorem scans_exponent : Scans exponent Scan.exponent :=
  ((Scans.char 'e').choice_next (Scans.char 'E')).andThen scans_integerText

theorem scans_floatText : Scans floatText Scan.float :=
  scans_integerText.andThen (((Scans.char '.').andThen
    (scans_digits.andThen scans_exponent.optional)).choice scans_exponent)

theorem local_digits : Local Scan.digits :=
  .run rfl

theorem local_integer : Local Scan.integer := by
  refine .andThen ?_ local_digits
  rw [signed_eq]
  exact .orElse (.next rfl) .some

theorem local_exponent : Local Scan.exponent :=
  .andThen (.next rfl) local_integer

theorem local_float : Local Scan.float :=
  .andThen local_integer (.orElse (.andThen (.next rfl)
    (.andThen local_digits (.orElse local_exponent .some))) local_exponent)

theorem digits_eq (cs : List Char) : Scan.digits cs =
    if (cs.takeWhile isDigit).isEmpty then none else some (cs.dropWhile isDigit) := by
  cases cs with
  | nil => rfl
  | cons c cs => cases hc : isDigit c <;> simp [Scan.digits, Scan.run, Scan.andThen, Scan.next,
      Scan.dropping, hc]

theorem digits_eq_nil_iff {cs : List Char} : Scan.digits cs = some [] ↔ isDigits cs = true := by
  cases cs with
  | nil => exact iff_of_false nofun nofun
  | cons c cs => cases hc : isDigit c <;> simp [digits_eq, isDigits, hc]

theorem integer_eq_nil_iff {cs : List Char} :
    Scan.integer cs = some [] ↔ isIntegerText cs = true :=
  digits_eq_nil_iff

theorem exponent_eq_nil_iff {cs : List Char} :
    Scan.exponent cs = some [] ↔ isExponent cs = true := by
  cases cs with
  | nil => exact iff_of_false nofun nofun
  | cons c cs =>
    have hdigits : Scan.integer cs = some [] ↔ isDigits (unsigned cs) = true := integer_eq_nil_iff
    rw [isExponent, Bool.and_eq_true, ← hdigits, Scan.exponent, Scan.andThen, Scan.next]
    by_cases hc : c = 'e' ∨ c = 'E' <;> simp [hc]

/-- An exponent or nothing. -/
theorem optional_exponent_eq_nil_iff {cs : List Char} :
    (Scan.exponent.orElse some) cs = some [] ↔ (cs.isEmpty || isExponent cs) = true := by
  rw [Bool.or_eq_true, ← exponent_eq_nil_iff, Scan.orElse]
  cases hexponent : Scan.exponent cs with
  | none => simp
  | some rest =>
    have hcs : cs ≠ [] := by
      rintro rfl
      cases hexponent
    simp [hcs]

theorem float_eq_nil_iff {cs : List Char} : Scan.float cs = some [] ↔ isFloatText cs = true := by
  have hfloat : Scan.float cs = (Scan.digits (unsigned cs)).bind
    (((Scan.next (· == '.')).andThen (Scan.digits.andThen (Scan.exponent.orElse some))).orElse
      Scan.exponent) := rfl
  rw [hfloat, digits_eq, isFloatText]
  cases hwhole : ((unsigned cs).takeWhile isDigit).isEmpty with
  | true => simp
  | false =>
    rw [if_neg Bool.false_ne_true, Option.bind_some, Bool.not_false, Bool.true_and]
    split
    case h_1 more htail =>
      have hexponent : Scan.exponent ('.' :: more) = none := rfl
      have hpoint : (Scan.next (· == '.')) ('.' :: more) = some more := rfl
      rw [htail, Scan.orElse, hexponent, Option.or_none, Scan.andThen, hpoint, Option.bind_some,
        Scan.andThen, digits_eq]
      cases hpart : (more.takeWhile isDigit).isEmpty with
      | true => simp
      | false =>
        rw [if_neg Bool.false_ne_true, Option.bind_some]
        exact optional_exponent_eq_nil_iff
    case h_2 htail =>
      have hpoint : (Scan.next (· == '.')) ((unsigned cs).dropWhile isDigit) = none := by
        cases hrest : (unsigned cs).dropWhile isDigit with
        | nil => rfl
        | cons c rest =>
          have hc : c ≠ '.' := fun hc => htail rest (hc ▸ hrest)
          simp [Scan.next, hc]
      rw [Scan.orElse, Scan.andThen, hpoint, Option.bind_none, Option.none_or]
      exact exponent_eq_nil_iff

/-! ## Whole runs -/

theorem scans_symbolChar : Scans symbolChar (Scan.next isSymbolChar) := by
  have heq : isSymbolChar = fun c => !(isSpace c ||
      ['(', ')', '[', ']', '"', '\x27', '\x60', ',', ';', '|', '\\'].contains c) := by
    funext c
    rw [Bool.not_or]
    rfl
  exact heq ▸ (scans_space.choice_next (.one _)).other

def Scan.stop : Scan :=
  (next isSymbolChar).without

theorem scans_stop : Scans (.absent symbolChar) Scan.stop :=
  scans_symbolChar.absent

/-- One or more symbol characters, but no lone point. -/
def Scan.symbol : Scan :=
  ((next (· == '.')).andThen stop).without.andThen (Scan.run isSymbolChar)

theorem scans_symbol : Scans Rule.symbol.body Scan.symbol :=
  ((Scans.char '.').andThen scans_stop).absent.andThen scans_symbolChar.plus_next

theorem local_symbol : Local Scan.symbol :=
  .andThen (.without (.andThen (.next rfl) (.without (.next rfl)))) (.run rfl)

theorem stop_of_ends {rest : List Char} (h : Ends rest) : Scan.stop rest = some rest := by
  cases rest with
  | nil => rfl
  | cons c rest =>
    have hc : isSymbolChar c = false := h
    simp [Scan.stop, Scan.without, Scan.next, hc]

theorem stop_cons {c : Char} (hc : isSymbolChar c = true) (cs : List Char) :
    Scan.stop (c :: cs) = none := by
  simp [Scan.stop, Scan.without, Scan.next, hc]

theorem symbol_eq {run : List Char} (hrun : ∀ c ∈ run, isSymbolChar c = true) :
    Scan.symbol run = if run ≠ [] ∧ run ≠ ['.'] then some [] else none := by
  cases run with
  | nil => rfl
  | cons c more =>
    have hc := hrun c List.mem_cons_self
    have hmore : more.dropWhile isSymbolChar = [] :=
      List.dropWhile_eq_nil_iff.2 fun d hd => hrun d (List.mem_cons_of_mem c hd)
    have hchars : Scan.run isSymbolChar (c :: more) = some [] := by
      simp [Scan.run, Scan.andThen, Scan.next, Scan.dropping, hc, hmore]
    by_cases hpoint : c = '.'
    · subst hpoint
      cases more with
      | nil => rfl
      | cons d more =>
        have hd := hrun d (by simp)
        simp [Scan.symbol, Scan.andThen, Scan.next, Scan.without, stop_cons hd, hchars]
    · simp [Scan.symbol, Scan.andThen, Scan.next, Scan.without, hpoint, hchars]

section

variable {run rest : List Char} (hrun : ∀ c ∈ run, isSymbolChar c = true) (hrest : Ends rest)

include hrun hrest

/-- Where no symbol character may follow, a run is taken whole or not at all. -/
theorem matches_whole {p : Pattern} {f : Scan} (hp : Scans p f) (hlocal : Local f) :
    Matches .atomic (andThen p (.absent symbolChar)) (run ++ rest)
      (if f run = some [] then some ([], rest) else none) := by
  have hmatches := hp.andThen scans_stop (run ++ rest)
  rw [Scan.andThen, hlocal run rest hrest] at hmatches
  cases hf : f run with
  | none => simpa [hf] using hmatches
  | some behind =>
    rw [hf, Option.map_some, Option.bind_some] at hmatches
    cases behind with
    | nil => simpa [stop_of_ends hrest] using hmatches
    | cons c more =>
      have hc : isSymbolChar c = true :=
        hrun c ((hp.of_some hf).suffix.mem List.mem_cons_self)
      rw [List.cons_append, stop_cons hc] at hmatches
      simpa using hmatches

omit hrun hrest in
/-- The pair of an atomic rule that takes the whole run or nothing. -/
theorem matches_call {rule : Rule} {whole : Prop} [Decidable whole]
    (hmode : rule.mode .plain = .atomic) (hform : rule ≠ .form)
    (hbody : Matches .atomic rule.body (run ++ rest) (if whole then some ([], rest) else none)) :
    Matches .plain (.call rule) (run ++ rest)
      (if whole then some ([.mk rule run rest.length []], rest) else none) := by
  rw [← hmode] at hbody
  have hleaves : rule.leaves .plain run rest.length [] = [.mk rule run rest.length []] := by
    simp [Rule.leaves, hform]
  split
  case isTrue hwhole =>
    rw [if_pos hwhole] at hbody
    exact hleaves ▸ .call hbody rfl
  case isFalse hwhole =>
    rw [if_neg hwhole] at hbody
    exact .call_fails hbody

theorem matches_float : Matches .plain (.call .float) (run ++ rest)
    (if isFloatText run then some ([.mk .float run rest.length []], rest) else none) := by
  have hwhole := matches_whole hrun hrest scans_floatText local_float
  simp only [float_eq_nil_iff] at hwhole
  exact matches_call rfl nofun hwhole

theorem matches_integer : Matches .plain (.call .integer) (run ++ rest)
    (if isIntegerText run then some ([.mk .integer run rest.length []], rest) else none) := by
  have hwhole := matches_whole hrun hrest scans_integerText local_integer
  simp only [integer_eq_nil_iff] at hwhole
  exact matches_call rfl nofun hwhole

theorem matches_symbol : Matches .plain (.call .symbol) (run ++ rest)
    (if run ≠ [] ∧ run ≠ ['.'] then some ([.mk .symbol run rest.length []], rest) else none) := by
  refine matches_call rfl nofun ?_
  have hmatches := scans_symbol (run ++ rest)
  rw [local_symbol run rest hrest, symbol_eq hrun] at hmatches
  split at hmatches <;> simpa [*] using hmatches

end

/-! ## Quoted texts -/

/-- A character other than `close`, with the backslash before it if there is one. -/
def quotedChar (close : Char) : Scan :=
  (Scan.next fun c => !(c == close || c == '\\')).orElse
    ((Scan.next (· == '\\')).andThen (Scan.next fun _ => true))

/-- The text from the end of a quoted text on. -/
def quoteEnd (close : Char) : List Char → List Char
  | '\\' :: _ :: cs => quoteEnd close cs
  | c :: cs => if c = close ∨ c = '\\' then c :: cs else quoteEnd close cs
  | [] => []

theorem quotedChar_escape (close c : Char) (cs : List Char) :
    quotedChar close ('\\' :: c :: cs) = some cs := by
  simp [quotedChar, Scan.orElse, Scan.andThen, Scan.next]

theorem quotedChar_cons {close c : Char} {cs : List Char}
    (h : ∀ d rest, c = '\\' → cs = d :: rest → False) :
    quotedChar close (c :: cs) = if c = close ∨ c = '\\' then none else some cs := by
  by_cases hslash : c = '\\'
  · cases cs with
    | cons d rest => exact (h d rest hslash rfl).elim
    | nil => simp [quotedChar, Scan.orElse, Scan.andThen, Scan.next, hslash]
  · have hescape :
        ((Scan.next (· == '\\')).andThen (Scan.next fun _ => true)) (c :: cs) = none := by
      simp [Scan.andThen, Scan.next, hslash]
    rw [quotedChar, Scan.orElse, hescape, Option.or_none, Scan.next]
    by_cases hc : c = close <;> simp [hslash, hc]

theorem quotedChar_ne_self (close : Char) (cs : List Char) : quotedChar close cs ≠ some cs := by
  intro heq
  fun_cases quoteEnd close cs with
  | case1 c cs =>
    rw [quotedChar_escape] at heq
    have hlength := congrArg List.length (Option.some.inj heq)
    simp only [List.length_cons] at hlength
    omega
  | case2 c cs h hstop =>
    rw [quotedChar_cons h, if_pos hstop] at heq
    cases heq
  | case3 c cs h hstop =>
    rw [quotedChar_cons h, if_neg hstop] at heq
    exact List.cons_ne_self c cs (Option.some.inj heq).symm
  | case4 => cases heq

theorem scans_escaped (close : Char) :
    Scans (escaped close) fun cs => some (quoteEnd close cs) := by
  have hchar : Scans _ (quotedChar close) :=
    ((Scans.char close).choice_next (Scans.char '\\')).other.choice
      ((Scans.char '\\').andThen Scans.any)
  refine hchar.star (quotedChar_ne_self close) fun cs => ?_
  fun_cases quoteEnd close cs with
  | case1 c cs => rw [quotedChar_escape, Option.elim_some]
  | case2 c cs h hstop => rw [quotedChar_cons h, if_pos hstop, Option.elim_none]
  | case3 c cs h hstop => rw [quotedChar_cons h, if_neg hstop, Option.elim_some]
  | case4 => rfl

/-- A text is quoted for the reader exactly if the end that the grammar finds is a `close`. -/
theorem enclosed?_cases {close : Char} (hclose : close ≠ '\\') (cs : List Char) :
    (enclosed? close cs = none ∧ ∀ rest, quoteEnd close cs ≠ close :: rest) ∨
      ∃ text rest, enclosed? close cs = some (text, rest) ∧ cs = text ++ close :: rest ∧
        quoteEnd close cs = close :: rest := by
  fun_induction quoteEnd close cs with
  | case1 c cs ih =>
    rw [enclosed?_escape]
    rcases ih with ⟨hnone, hend⟩ | ⟨text, rest, hsome, rfl, hend⟩
    · exact .inl ⟨by rw [hnone]; rfl, hend⟩
    · exact .inr ⟨'\\' :: c :: text, rest, by rw [hsome]; rfl, rfl, hend⟩
  | case2 c cs h hstop =>
    by_cases hc : c = close
    · subst hc
      exact .inr ⟨[], cs, enclosed?_close hclose cs, rfl, rfl⟩
    · have hslash := hstop.resolve_left hc
      refine .inl ⟨?_, fun rest heq => hc (List.cons.inj heq).1⟩
      rw [enclosed?.eq_2 close c cs h, if_neg hc, if_pos hslash]
  | case3 c cs h hstop ih =>
    rw [enclosed?_cons (fun hc => hstop (.inl hc)) (fun hc => hstop (.inr hc))]
    rcases ih with ⟨hnone, hend⟩ | ⟨text, rest, hsome, rfl, hend⟩
    · exact .inl ⟨by rw [hnone]; rfl, hend⟩
    · exact .inr ⟨c :: text, rest, by rw [hsome]; rfl, rfl, hend⟩
  | case4 => exact .inl ⟨rfl, fun _ heq => absurd heq.symm (List.cons_ne_nil _ _)⟩

/-- The pairs of a quoted text: its own and that of the text between the quotes. -/
theorem matches_quoted (outer inner : Rule) {close : Char} (hclose : close ≠ '\\')
    (hmode : outer.mode .plain = .compound) (hatomic : inner.mode .compound = .atomic)
    (hbody : outer.body = enclosed [close] (.call inner) close)
    (hescaped : inner.body = escaped close) (hform : outer ≠ .form ∧ inner ≠ .form)
    (cs : List Char) :
    Matches .plain (.call outer) (close :: cs) ((enclosed? close cs).map fun found =>
      ([.mk outer (close :: (found.1 ++ [close])) found.2.length
        [.mk inner found.1 (found.2.length + 1) []]], found.2)) := by
  have hopening : Matches .compound (.text [close]) (close :: cs) (some ([], cs)) := .text rfl
  have hscan : Matches (inner.mode .compound) inner.body cs (some ([], quoteEnd close cs)) := by
    rw [hatomic, hescaped]
    exact scans_escaped close cs
  obtain ⟨inside, hinside⟩ := hscan.suffix
  have hinner : Matches .compound (.call inner) cs
      (some ([.mk inner inside (quoteEnd close cs).length []], quoteEnd close cs)) := by
    have hcall := Matches.call hscan hinside.symm
    rwa [Rule.leaves, if_neg (by simp [hform.2])] at hcall
  have hwhole (answer : Answer)
      (hend : Matches .compound (.text [close]) (quoteEnd close cs) answer) :
      Matches (outer.mode .plain) outer.body (close :: cs) (answer.map fun found =>
        (.mk inner inside (quoteEnd close cs).length [] :: found.1, found.2)) := by
    rw [hmode, hbody]
    have hbetween := hopening.andThen (.skip_nothing nofun)
      (hinner.andThen (.skip_nothing nofun) hend)
    simpa [enclosed, Function.comp_def] using hbetween
  rcases enclosed?_cases hclose cs with ⟨hnone, hend⟩ | ⟨text', rest, hsome, rfl, hend⟩
  · rw [hnone]
    exact .call_fails (hwhole none (.text_fails hend))
  · rw [hsome]
    rw [hend] at hwhole hinside
    cases List.append_cancel_right hinside
    have htext : close :: (inside ++ close :: rest) = close :: (inside ++ [close]) ++ rest := by
      simp
    have hpair := Matches.call (hwhole _ (.text rfl)) htext
    rwa [Rule.leaves, if_neg (by simp [hform.1])] at hpair

end HeaderForms.Grammar
