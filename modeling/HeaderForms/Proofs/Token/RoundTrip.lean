-- SUMMARY: The printed text of tokens gives the tokens back, up to points and floats without one.
import HeaderForms.Proofs.Token.Printed

/-!
# Printed tokens read back

Tokens are printed with a space between them, and every lexeme but two kinds is scanned from its
text as it was. A point that does not end a declaration is printed as one that does, and a float
without a point in its text is an integer and a name, or a name. So the printed text always has
tokens, and they are the same exactly when neither kind is among them.
-/

namespace HeaderForms

open Numeral Float64

namespace Lexer

/-! ## Texts of several tokens -/

/-- The text has these lexemes. -/
inductive Lexes : List Char → List Lexeme → Prop
  | nil : Lexes [] []
  | space {cs : List Char} {lexemes : List Lexeme} : Lexes cs lexemes → Lexes (' ' :: cs) lexemes
  | token {cs rest : List Char} {lexeme : Lexeme} {lexemes : List Lexeme} : Starts cs →
      scan (cs ++ rest) = .ok ⟨lexeme, cs, rest⟩ → Lexes rest lexemes →
      Lexes (cs ++ rest) (lexeme :: lexemes)

theorem Scans.lexes {follow : List Char → Prop} {cs rest : List Char} {lexeme : Lexeme}
    {lexemes : List Lexeme} (h : Scans follow cs lexeme) (hrest : follow rest)
    (hlexes : Lexes rest lexemes) : Lexes (cs ++ rest) (lexeme :: lexemes) :=
  .token h.starts (h.scan_eq rest hrest) hlexes

theorem tokensWithin_space (steps line : Nat) (cs : List Char) :
    tokensWithin (steps + 1) line (' ' :: cs) = tokensWithin (steps + 1) line cs := by
  have hskip : skipGap false (' ' :: cs) = skipGap false cs := rfl
  have hgap : newlines (gapText false (' ' :: cs)) = newlines (gapText false cs) :=
    List.count_cons_of_ne (by decide)
  rw [tokensWithin, tokensWithin, hskip, hgap]

theorem Starts.tokensWithin_eq {cs : List Char} (h : Starts cs) (steps line : Nat)
    (rest : List Char) :
    tokensWithin (steps + 1) line (cs ++ rest) =
      match scan (cs ++ rest) with
      | .error fault => .error ⟨line, fault⟩
      | .ok scanned => do
        let tokens ← tokensWithin steps (line + newlines scanned.text) scanned.rest
        return ⟨scanned.lexeme, line⟩ :: tokens := by
  obtain ⟨c, more, rfl, hgap, hcomment⟩ := h
  have hskip : skipGap false (c :: (more ++ rest)) = c :: (more ++ rest) := by
    simp [skipGap, hgap, hcomment]
  have htext : gapText false (c :: (more ++ rest)) = [] := by
    simp [gapText, hgap, hcomment]
  rw [List.cons_append, tokensWithin, hskip, htext]
  rfl

/-- A text that has lexemes has tokens with them. -/
theorem Lexes.exists_tokensWithin {cs : List Char} {lexemes : List Lexeme} (h : Lexes cs lexemes)
    {steps : Nat} (hsteps : cs.length < steps) (line : Nat) :
    ∃ tokens, tokensWithin steps line cs = .ok tokens ∧ tokens.map (·.lexeme) = lexemes := by
  obtain ⟨steps, rfl⟩ : ∃ n, steps = n + 1 := ⟨steps - 1, by omega⟩
  induction h generalizing steps line with
  | nil => exact ⟨[], rfl, rfl⟩
  | space _ ih =>
    rw [tokensWithin_space]
    exact ih line steps (by simp at hsteps; omega)
  | @token cs rest lexeme lexemes hstarts hscan _ ih =>
    have hlength : rest.length < steps := by
      obtain ⟨c, more, rfl, -⟩ := hstarts
      simp at hsteps
      omega
    obtain ⟨steps, rfl⟩ : ∃ n, steps = n + 1 := ⟨steps - 1, by omega⟩
    obtain ⟨tokens, htokens, hlexemes⟩ := ih (line + newlines cs) steps hlength
    refine ⟨⟨lexeme, line⟩ :: tokens, ?_, by rw [List.map_cons, hlexemes]⟩
    rw [hstarts.tokensWithin_eq, hscan]
    simp only [htokens]
    rfl

end Lexer

/-! ## Single lexemes -/

namespace Lexeme

/-- A lexeme whose text is scanned as the lexeme. -/
def Survives (lexeme : Lexeme) : Prop :=
  lexeme ≠ .punct .period ∧ ∀ value, lexeme = .float value → '.' ∈ value.chars .display

theorem survives_of {lexeme : Lexeme} (hpoint : lexeme ≠ .punct .period)
    (hfloat : ∀ value, lexeme ≠ .float value) : lexeme.Survives :=
  ⟨hpoint, fun value hvalue => absurd hvalue (hfloat value)⟩

/-- What comes back for the text of a lexeme: a first lexeme, which is the same and the only one
just for a lexeme that survives, and perhaps more. -/
structure ComesBack (lexeme first : Lexeme) (more : List Lexeme) : Prop where
  lexes : ∀ rest lexemes, Lexer.Ends rest → Lexer.Lexes rest lexemes →
    Lexer.Lexes (lexeme.chars ++ rest) (first :: (more ++ lexemes))
  same : lexeme.Survives → first = lexeme ∧ more = []
  differs : ¬ lexeme.Survives → first ≠ lexeme

theorem comesBack_of_scans {lexeme : Lexeme} (h : Lexer.Scans Lexer.Ends lexeme.chars lexeme)
    (hsurvives : lexeme.Survives) : ComesBack lexeme lexeme [] where
  lexes _ _ hrest hlexes := h.lexes hrest hlexes
  same _ := ⟨rfl, rfl⟩
  differs hnot := absurd hsurvives hnot

/-! ### Floats -/

theorem chars_of_isInfinite {value : Float64} (hsign : value.isNegative = false)
    (hnan : value.isNaN = false) (hfinite : value.isFinite = false) :
    value.chars .display = ['i', 'n', 'f'] := by
  have hfield : value.field = topField := by simpa [isFinite] using hfinite
  have hinf : value.isInfinite = true := by
    simp only [isNaN, hfield, beq_self_eq_true, Bool.true_and, bne_eq_false_iff_eq] at hnan
    simp [isInfinite, hfield, hnan]
  simp [Float64.chars, hnan, hinf, hsign]

theorem point_notMem_exponent {whole : List Char} {e : Int} (h : IsDigits whole) :
    '.' ∉ whole ++ 'e' :: integerChars e := by
  have hdigit : ¬ isDigit '.' = true := by decide
  have hwhole : '.' ∉ whole := fun hmem => hdigit (h.2 _ hmem)
  have hnatural : '.' ∉ naturalChars e.natAbs := fun hmem =>
    hdigit (isDigit_of_mem_naturalChars hmem)
  have hinteger : '.' ∉ integerChars e := by
    unfold integerChars
    split
    case isTrue => simpa using hnatural
    case isFalse => exact hnatural
  simp [hwhole, hinteger]

theorem comesBack_of_not_survives {value : Float64} {first : Lexeme} {more : List Lexeme}
    (hpoint : '.' ∉ value.chars .display) (hfirst : first ≠ .float value)
    (hlexes : ∀ rest lexemes, Lexer.Ends rest → Lexer.Lexes rest lexemes →
      Lexer.Lexes (value.chars .display ++ rest) (first :: (more ++ lexemes))) :
    ComesBack (.float value) first more where
  lexes := hlexes
  same hsurvives := absurd (hsurvives.2 value rfl) hpoint
  differs _ := hfirst

theorem integerLexeme_ne_float (n : Nat) (text : List Char) (value : Float64) :
    Lexer.integerLexeme n text ≠ .float value :=
  Lexer.integerLexeme_cases (p := (· ≠ .float value)) (fun _ => nofun) fun _ => nofun

/-- Digits with an exponent and no point are an integer and what the exponent is. -/
theorem exists_comesBack_exponent {value : Float64} {whole : List Char} {e : Int}
    (hwhole : IsDigits whole) (htext : value.chars .display = whole ++ 'e' :: integerChars e) :
    ∃ first more, ComesBack (.float value) first more := by
  have hpoint : '.' ∉ value.chars .display := htext ▸ point_notMem_exponent hwhole
  have hinteger := Lexer.scans_decimal hwhole
  have hname : ∀ cs, (∀ c ∈ cs, isNameChar c = true) →
      Lexer.Scans (Lexer.Stops isNameChar) ('e' :: cs) (Lexer.word ('e' :: cs)) :=
    fun cs hcs => Lexer.scans_word (by decide) hcs
  have hdigits := isDigits_naturalChars e.natAbs
  refine ⟨Lexer.integerLexeme (ofDigits 10 0 whole) whole, ?_⟩
  by_cases hneg : e < 0
  case pos =>
    -- The sign parts the exponent into a name, a minus and an integer.
    have hminus := @Lexer.scans_punct .minus nofun
    refine ⟨[Lexer.word ['e'], .punct .minus, Lexer.integerLexeme
        (ofDigits 10 0 (naturalChars e.natAbs)) (naturalChars e.natAbs)],
      comesBack_of_not_survives hpoint (integerLexeme_ne_float _ whole value) ?_⟩
    intro rest lexemes hrest hlexes
    have hstops : Lexer.Stops Lexer.inMark (naturalChars e.natAbs ++ rest) := by
      obtain ⟨c, more, hcons, hc⟩ := hdigits.exists_cons
      rw [hcons]
      exact Lexer.stops_cons (Lexer.inMark_of_isDigit hc) _
    have hexponent := (Lexer.scans_decimal hdigits).lexes (hrest.stops (by decide)) hlexes
    have hsigned := hminus.lexes hstops hexponent
    have hbehind := (hname [] (List.forall_mem_nil _)).lexes (Lexer.stops_cons (by decide) _) hsigned
    have hall := hinteger.lexes (Lexer.stops_cons (by decide) _) hbehind
    rw [htext, integerChars, if_pos hneg, List.append_assoc]
    exact hall
  case neg =>
    refine ⟨[Lexer.word ('e' :: naturalChars e.natAbs)],
      comesBack_of_not_survives hpoint (integerLexeme_ne_float _ whole value) ?_⟩
    intro rest lexemes hrest hlexes
    have hletters : ∀ c ∈ naturalChars e.natAbs, isNameChar c = true := fun c hc => by
      simp [isNameChar, hdigits.2 c hc]
    have hbehind := (hname _ hletters).lexes (hrest.stops (by decide)) hlexes
    have hall := hinteger.lexes (Lexer.stops_cons (by decide) _) hbehind
    rwa [htext, integerChars, if_neg hneg, List.append_assoc]

theorem exists_comesBack_float {value : Float64} (hsign : value.isNegative = false)
    (hnan : value.isNaN = false) : ∃ first more, ComesBack (.float value) first more := by
  cases hfinite : value.isFinite with
  | false =>
    have htext := chars_of_isInfinite hsign hnan hfinite
    have hbare : isBareAtom "inf" = true := by decide
    have hword : Lexer.Scans (Lexer.Stops isNameChar) ['i', 'n', 'f'] (.atom "inf") :=
      Lexer.scans_bareAtom hbare
    refine ⟨.atom "inf", [], comesBack_of_not_survives (by rw [htext]; decide) nofun ?_⟩
    intro rest lexemes hrest hlexes
    rw [htext]
    exact hword.lexes (hrest.stops (by decide)) hlexes
  | true =>
    obtain ⟨cs, n, scale, htext, hwrites, -⟩ := exists_writesDecimal .display hfinite
    rw [hsign, if_neg Bool.false_ne_true, List.nil_append] at htext
    have hvalue := parse?_chars .display hfinite
    cases hwrites with
    | point hwhole hpart htail =>
      refine ⟨_, _, comesBack_of_scans ?_ ⟨nofun, ?_⟩⟩
      · rw [Lexeme.chars, htext]
        exact Lexer.scans_float hwhole hpart htail (htext ▸ hvalue)
      · rintro value' ⟨⟩
        rw [htext]
        simp
    | exponent e hwhole => exact exists_comesBack_exponent hwhole htext

/-! ### All lexemes -/

theorem exists_comesBack {lexeme : Lexeme} (h : lexeme.IsLexed) :
    ∃ first more, ComesBack lexeme first more := by
  cases h with
  | atom name =>
    refine ⟨_, _, comesBack_of_scans ?_ (survives_of nofun nofun)⟩
    by_cases hbare : isBareAtom name = true
    case pos =>
      rw [Lexeme.chars, if_pos hbare]
      exact (Lexer.scans_bareAtom hbare).mono fun rest hrest => hrest.stops (by decide)
    case neg =>
      rw [Lexeme.chars, if_neg hbare]
      exact (Lexer.scans_atom name).mono fun _ _ => trivial
  | @var name hstart hname =>
    refine ⟨_, _, comesBack_of_scans ?_ (survives_of nofun nofun)⟩
    obtain ⟨c, cs, htext, hc⟩ := hstart
    have hscans := Lexer.scans_variable hc (htext ▸ hname)
    rw [← htext, String.ofList_toList] at hscans
    exact hscans.mono fun rest hrest => hrest.stops (by decide)
  | @integer value hsmall =>
    refine ⟨_, _, comesBack_of_scans ?_ (survives_of nofun nofun)⟩
    have hlexeme : Lexer.integerLexeme value (naturalChars value) = .integer value := if_pos hsmall
    have hscans := Lexer.scans_decimal (isDigits_naturalChars value)
    rw [ofDigits_naturalChars, hlexeme] at hscans
    exact hscans.mono fun rest hrest => hrest.stops (by decide)
  | @bigInteger text htext =>
    refine ⟨_, _, comesBack_of_scans ?_ (survives_of nofun nofun)⟩
    have hscans := Lexer.scans_bigText htext
    rwa [String.ofList_toList] at hscans
  | float hsign hnan => exact exists_comesBack_float hsign hnan
  | char value =>
    exact ⟨_, _, comesBack_of_scans ((Lexer.scans_char value).mono fun _ _ => trivial)
      (survives_of nofun nofun)⟩
  | string text =>
    exact ⟨_, _, comesBack_of_scans ((Lexer.scans_string text).mono fun _ _ => trivial)
      (survives_of nofun nofun)⟩
  | keyword word =>
    refine ⟨_, _, comesBack_of_scans ?_ (survives_of nofun nofun)⟩
    exact (Lexer.scans_keyword word).mono fun rest hrest => hrest.stops (by decide)
  | punct mark =>
    by_cases hpoint : mark = .period
    case pos =>
      subst hpoint
      exact ⟨.dot, [], fun rest lexemes hrest hlexes => Lexer.scans_point.lexes hrest hlexes,
        fun hsurvives => absurd rfl hsurvives.1, fun _ => nofun⟩
    case neg =>
      refine ⟨_, _, comesBack_of_scans ?_ (survives_of ?_ nofun)⟩
      · exact (Lexer.scans_punct hpoint).mono fun rest hrest => hrest.stops (by decide +kernel)
      · rintro ⟨⟩
        exact hpoint rfl
  | dot => exact ⟨_, _, comesBack_of_scans Lexer.scans_point (survives_of nofun nofun)⟩

end Lexeme

/-! ## Token sequences -/

namespace Token

/-- The text behind a token: a space before each of the next ones. -/
def behind : List Lexeme → List Char
  | [] => []
  | lexeme :: lexemes => ' ' :: (lexeme.chars ++ behind lexemes)

theorem ends_behind (lexemes : List Lexeme) : Lexer.Ends (behind lexemes) := by
  cases lexemes with
  | nil => exact .nil
  | cons => exact .space _

theorem toList_textOf_cons (token : Token) (tokens : List Token) :
    (textOf (token :: tokens)).toList =
      token.lexeme.chars ++ behind (tokens.map (·.lexeme)) := by
  induction tokens generalizing token with
  | nil => simp [textOf, Lexeme.text, behind]
  | cons next tokens ih =>
    have hnext := ih next
    simp only [textOf, List.map_cons] at hnext ⊢
    rw [String.intercalate_cons_cons, String.toList_append, String.toList_append, hnext]
    simp [Lexeme.text, behind]

/-- Lexemes come back from their texts, one after the other, as far as each of them survives. -/
theorem exists_lexes_cons {lexeme : Lexeme} {lexemes again : List Lexeme} (h : lexeme.IsLexed)
    (hagain : Lexer.Lexes (behind lexemes) again)
    (hsame : again = lexemes ↔ ∀ other ∈ lexemes, other.Survives) :
    ∃ again, Lexer.Lexes (lexeme.chars ++ behind lexemes) again ∧
      (again = lexeme :: lexemes ↔ ∀ other ∈ lexeme :: lexemes, other.Survives) := by
  obtain ⟨first, more, hback⟩ := Lexeme.exists_comesBack h
  refine ⟨_, hback.lexes _ _ (ends_behind lexemes) hagain, ?_⟩
  rw [List.forall_mem_cons]
  by_cases hsurvives : lexeme.Survives
  case pos =>
    obtain ⟨rfl, rfl⟩ := hback.same hsurvives
    simp [hsurvives, hsame]
  case neg =>
    refine iff_of_false (fun heq => ?_) fun hall => hsurvives hall.1
    exact hback.differs hsurvives (List.cons.inj heq).1

theorem exists_lexes_behind {lexemes : List Lexeme} (h : ∀ lexeme ∈ lexemes, lexeme.IsLexed) :
    ∃ again, Lexer.Lexes (behind lexemes) again ∧
      (again = lexemes ↔ ∀ lexeme ∈ lexemes, lexeme.Survives) := by
  induction lexemes with
  | nil => exact ⟨[], .nil, by simp⟩
  | cons lexeme lexemes ih =>
    obtain ⟨hlexeme, hlexemes⟩ := List.forall_mem_cons.1 h
    obtain ⟨again, hlexes, hsame⟩ := ih hlexemes
    obtain ⟨again', hlexes', hsame'⟩ := exists_lexes_cons hlexeme hlexes hsame
    exact ⟨again', .space hlexes', hsame'⟩

/-- The printed text of lexed tokens has tokens. They are the same, lines apart, exactly when there
is no point among them that ends no declaration and no float whose text has no point. -/
theorem ofText_textOf {source : String} {tokens : List Token} (h : ofText source = .ok tokens) :
    ∃ again, ofText (textOf tokens) = .ok again ∧
      (again.map (·.lexeme) = tokens.map (·.lexeme) ↔
        ∀ token ∈ tokens, token.lexeme ≠ .punct .period ∧
          ∀ value, token.lexeme = .float value → '.' ∈ value.chars .display) := by
  have hlexed := isLexed_ofText h
  have hlexes : ∃ lexemes, Lexer.Lexes (textOf tokens).toList lexemes ∧
      (lexemes = tokens.map (·.lexeme) ↔ ∀ token ∈ tokens, token.lexeme.Survives) := by
    cases tokens with
    | nil => exact ⟨[], .nil, by simp⟩
    | cons token tokens =>
      obtain ⟨htoken, htokens⟩ := List.forall_mem_cons.1 hlexed
      have htokens' : ∀ lexeme ∈ tokens.map (·.lexeme), lexeme.IsLexed := by simpa using htokens
      obtain ⟨again, hbehind, hsame⟩ := exists_lexes_behind htokens'
      rw [toList_textOf_cons]
      simpa using exists_lexes_cons htoken hbehind hsame
  obtain ⟨lexemes, hlexes, hsame⟩ := hlexes
  obtain ⟨again, hagain, rfl⟩ := hlexes.exists_tokensWithin (Nat.lt_succ_self _) 1
  exact ⟨again, hagain, hsame⟩

/-- The tokens of a quoted atom, a character, an integer with a base, and an end marker. -/
def printedSample : List Token :=
  [⟨.atom "a.b", 1⟩, ⟨.char '\n', 1⟩, ⟨.integer 255, 1⟩, ⟨.dot, 1⟩]

theorem ofText_textOf_sample :
    ∃ again, ofText (textOf printedSample) = .ok again ∧
      again.map (·.lexeme) = printedSample.map (·.lexeme) := by
  have hsome : (ofText "'a.b'$\\n16#fF.").toOption = some printedSample := by decide +kernel
  cases hlexed : ofText "'a.b'$\\n16#fF." with
  | error error =>
    rw [hlexed] at hsome
    cases hsome
  | ok tokens =>
    rw [hlexed] at hsome
    obtain rfl := Option.some.inj hsome
    obtain ⟨again, hagain, hsame⟩ := ofText_textOf hlexed
    refine ⟨again, hagain, hsame.2 fun token htoken => ?_⟩
    simp only [printedSample, List.mem_cons, List.not_mem_nil, or_false] at htoken
    rcases htoken with rfl | rfl | rfl | rfl <;> exact ⟨nofun, nofun⟩

end Token

end HeaderForms
