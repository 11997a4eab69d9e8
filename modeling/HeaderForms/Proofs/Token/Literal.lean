-- SUMMARY: Integer literals: which number each token of one stands for.
import HeaderForms.Proofs.Token.Joined

/-!
# Integer literals

An integer literal is a run of decimal digits, or digits of a base behind the base and a mark. A
token of digits is the longest literal at its place, and it is kept as a number exactly when the
number that the literal writes takes less than 64 bits.
-/

namespace HeaderForms

open Numeral Float64

/-- A token of digits, whether it is kept as a number or as it was written. -/
def Lexeme.isInteger : Lexeme → Bool
  | .integer _ | .bigInteger _ => true
  | _ => false

namespace Lexer

/-! ## Literals -/

/-- The text is an integer literal that writes this number. -/
inductive IntegerLiteral : List Char → Nat → Prop where
  | decimal {digits : List Char} (hdigits : IsDigits digits) :
    IntegerLiteral digits (ofDigits 10 0 digits)
  | radix {base digits : List Char} (hbase : IsDigits base) (hne : digits ≠ [])
    (hlow : 2 ≤ ofDigits 10 0 base) (hhigh : ofDigits 10 0 base ≤ 36)
    (hdigits : ∀ c ∈ digits, isDigitOf (ofDigits 10 0 base) c = true) :
    IntegerLiteral (base ++ '#' :: digits) (ofDigits (ofDigits 10 0 base) 0 digits)

/-- No literal that the text begins with is longer than this one. -/
def Longest (text cs : List Char) : Prop :=
  ∀ ⦃longer value⦄, IntegerLiteral longer value → longer <+: cs → longer.length ≤ text.length

def NoInteger (lexeme : Lexeme) : Prop :=
  lexeme.isInteger = false

/-- The step, if its token is an integer, takes the longest literal at the front of the text and
keeps the number that it writes. -/
def TakesLiteral (cs : List Char) (step : Step) : Prop :=
  ∀ scanned, step = .ok scanned → scanned.lexeme.isInteger = true →
    Longest scanned.text cs ∧ ∃ value, IntegerLiteral scanned.text value ∧
      scanned.lexeme = integerLexeme value scanned.text

/-- A digit of some base is a letter or a decimal digit. -/
theorem isAlnum_of_isDigitOf {base : Nat} {c : Char} (h : isDigitOf base c = true) :
    (isLetter c || isDigit c) = true := by
  unfold isDigitOf at h
  split at h
  case h_2 => cases h
  case h_1 digit hdigit =>
    unfold digitValue? at hdigit
    rw [Bool.or_eq_true]
    split at hdigit
    case isTrue hdecimal => exact .inr hdecimal
    case isFalse =>
      split at hdigit
      case isTrue hlower => exact .inl (Bool.or_eq_true_iff.2 (.inl hlower))
      case isFalse =>
        split at hdigit
        case isTrue hupper => exact .inl (Bool.or_eq_true_iff.2 (.inr hupper))
        case isFalse => cases hdigit

/-! ## The longest literal -/

section

variable {kind : Char → Bool} {digits base text rest cs : List Char}

theorem length_le_of_prefix (htext : ∀ c ∈ text, kind c = true) (h : text <+: cs) :
    text.length ≤ (cs.takeWhile kind).length := by
  obtain ⟨more, rfl⟩ := h
  rw [List.takeWhile_append_of_pos htext, List.length_append]
  exact Nat.le_add_right _ _

/-- Where digits stop, the base of a literal is all of them. -/
theorem eq_of_prefix (hbase : IsDigits base) (hdigits : IsDigits digits)
    (hstops : Stops isDigit rest) (h : base ++ '#' :: text <+: digits ++ rest) :
    base = digits ∧ '#' :: text <+: rest := by
  obtain ⟨more, heq⟩ := h
  rw [List.append_assoc, List.cons_append] at heq
  have hmark : Stops isDigit ('#' :: (text ++ more)) := stops_cons (by decide) _
  have hsame : base = digits := by
    rw [← hmark.takeWhile_append hbase.2, heq, hstops.takeWhile_append hdigits.2]
  subst hsame
  exact ⟨rfl, more, List.append_cancel_left heq⟩

theorem longest_decimal (hdigits : IsDigits digits) (hstops : Stops isDigit rest)
    (hmark : ∀ text, text ≠ [] → (∀ c ∈ text, (isLetter c || isDigit c) = true) →
      ¬ '#' :: text <+: rest) : Longest digits (digits ++ rest) := by
  intro longer value hliteral hprefix
  cases hliteral with
  | decimal hlonger =>
    have hlength := length_le_of_prefix hlonger.2 hprefix
    rwa [hstops.takeWhile_append hdigits.2] at hlength
  | radix hbase hne _ _ hvalid =>
    obtain ⟨-, hbehind⟩ := eq_of_prefix hbase hdigits hstops hprefix
    exact absurd hbehind (hmark _ hne fun c hc => isAlnum_of_isDigitOf (hvalid c hc))

theorem longest_radix (hbase : IsDigits base) (rest : List Char) :
    Longest (base ++ '#' :: rest.takeWhile fun c => isLetter c || isDigit c)
      (base ++ '#' :: rest) := by
  have hstops : Stops isDigit ('#' :: rest) := stops_cons (by decide) _
  intro longer value hliteral hprefix
  rw [List.length_append, List.length_cons]
  cases hliteral with
  | decimal hlonger =>
    have hlength := length_le_of_prefix hlonger.2 hprefix
    rw [hstops.takeWhile_append hbase.2] at hlength
    omega
  | radix hbase' _ _ _ hvalid =>
    obtain ⟨rfl, hbehind⟩ := eq_of_prefix hbase' hbase hstops hprefix
    obtain ⟨-, hdigits⟩ := List.cons_prefix_cons.1 hbehind
    have hlength := length_le_of_prefix (fun c hc => isAlnum_of_isDigitOf (hvalid c hc)) hdigits
    rw [List.length_append, List.length_cons]
    omega

end

/-! ## Tokens of integers -/

section

variable {cs digits base rest : List Char} {step : Step}

theorem takesLiteral_ok {value : Nat} (hlongest : Longest digits cs)
    (h : IntegerLiteral digits value) (rest : List Char) :
    TakesLiteral cs (.ok ⟨integerLexeme value digits, digits, rest⟩) := by
  intro scanned heq _
  obtain rfl := Except.ok.inj heq
  refine ⟨hlongest, value, h, ?_⟩
  dsimp only

theorem takesLiteral_of_gives (h : Gives NoInteger step) : TakesLiteral cs step := by
  intro scanned hscanned hinteger
  have hnone : scanned.lexeme.isInteger = false := h scanned hscanned
  rw [hnone] at hinteger
  cases hinteger

theorem takesLiteral_decimalToken (hdigits : IsDigits digits) (hstops : Stops isDigit rest)
    (hmark : ∀ more, rest ≠ '#' :: more) :
    TakesLiteral (digits ++ rest) (decimalToken digits rest) := by
  refine takesLiteral_ok (longest_decimal hdigits hstops ?_) (.decimal hdigits) rest
  rintro text - - ⟨more, heq⟩
  exact hmark (text ++ more) heq.symm

/-- A mark without digits behind it is no part of a literal. -/
theorem takesLiteral_radixToken (hbase : IsDigits base) (rest : List Char) :
    TakesLiteral (base ++ '#' :: rest) (radixToken base rest) := by
  simp only [radixToken]
  split
  case isTrue hempty =>
    split
    case isTrue hsmall =>
      have hlexeme : Lexeme.integer (ofDigits 10 0 base) =
          integerLexeme (ofDigits 10 0 base) base := (if_pos hsmall).symm
      rw [hlexeme]
      refine takesLiteral_ok (longest_decimal hbase (stops_cons (by decide) _) ?_)
        (.decimal hbase) _
      intro text hne htext hbehind
      obtain ⟨-, hdigits⟩ := List.cons_prefix_cons.1 hbehind
      have hlength := length_le_of_prefix htext hdigits
      rw [List.isEmpty_iff.1 hempty, List.length_nil, Nat.le_zero] at hlength
      exact hne (List.length_eq_zero_iff.1 hlength)
    case isFalse => exact takesLiteral_of_gives gives_error
  case isFalse hempty =>
    split
    case isTrue hvalid =>
      simp only [Bool.and_eq_true, decide_eq_true_eq, List.all_eq_true] at hvalid
      obtain ⟨⟨hlow, hhigh⟩, hdigits⟩ := hvalid
      exact takesLiteral_ok (longest_radix hbase rest)
        (.radix hbase (by simpa using hempty) hlow hhigh hdigits) _
    case isFalse => exact takesLiteral_of_gives gives_error

theorem takesLiteral_numberBehind (hdigits : IsDigits digits) (hstops : Stops isDigit rest) :
    TakesLiteral (digits ++ rest) (numberBehind digits rest) := by
  fun_cases numberBehind digits rest with
  | case1 rest => exact takesLiteral_radixToken hdigits rest
  | case2 c rest =>
    refine takesLiteral_of_gives ?_
    simp only [floatToken]
    split
    case h_1 => exact gives_ok rfl
    case h_2 => exact gives_error
  | case3 c rest =>
    have hpoint : ∀ more, '.' :: c :: rest ≠ '#' :: more := by simp
    exact takesLiteral_decimalToken hdigits hstops hpoint
  | case4 rest hbase => exact takesLiteral_decimalToken hdigits hstops fun more heq => hbase more heq

end

theorem noInteger_scan {c : Char} {rest : List Char} (hc : ¬ isDigit c = true) :
    Gives NoInteger (scan (c :: rest)) := by
  have hatom : ∀ name, NoInteger (.atom name) := fun _ => rfl
  have hdot : NoInteger .dot := rfl
  have hpunct : ∀ mark, NoInteger (.punct mark) := fun _ => rfl
  simp only [scan, if_neg hc]
  split
  case isTrue => exact gives_word (fun _ => rfl) hatom _
  case isFalse =>
    split
    case isTrue => exact gives_ok rfl
    case isFalse =>
      split
      case isTrue => exact gives_quotedToken c hatom rest
      case isFalse =>
        split
        case isTrue =>
          refine gives_quotedToken c (fun _ => ?_) rest
          rfl
        case isFalse =>
          split
          case isTrue => exact gives_characterToken (fun _ => rfl) rest
          case isFalse => exact gives_punctToken hdot hpunct _

theorem takesLiteral_scan (cs : List Char) : TakesLiteral cs (scan cs) := by
  cases cs with
  | nil => exact takesLiteral_of_gives gives_error
  | cons c rest =>
    by_cases hc : isDigit c = true
    case neg => exact takesLiteral_of_gives (noInteger_scan hc)
    case pos =>
      have hdigits : IsDigits ((c :: rest).takeWhile isDigit) :=
        ⟨by simp [List.takeWhile_cons_of_pos hc], fun d hd => List.mem_takeWhile_imp hd⟩
      have hstops : Stops isDigit ((c :: rest).dropWhile isDigit) := by
        intro d hd
        have hnot := List.head?_dropWhile_not isDigit (c :: rest)
        rw [hd] at hnot
        simpa using hnot
      have htakes := takesLiteral_numberBehind hdigits hstops
      rwa [List.takeWhile_append_dropWhile, ← numberToken_eq, ← scan_digit _ hc] at htakes

/-! ## Places -/

/-- The token is the one at some place of a text that starts on `line`. -/
def ReadAt (line : Nat) (cs : List Char) (token : Token) : Prop :=
  ∃ before behind scanned, cs = before ++ behind ∧ scan behind = .ok scanned ∧
    token = ⟨scanned.lexeme, line + newlines before⟩

theorem ReadAt.behind {line : Nat} {cs before : List Char} {token : Token}
    (h : ReadAt (line + newlines before) cs token) : ReadAt line (before ++ cs) token := by
  obtain ⟨between, behind, scanned, rfl, hscan, rfl⟩ := h
  refine ⟨before ++ between, behind, scanned, (List.append_assoc ..).symm, hscan, ?_⟩
  rw [newlines_append, Nat.add_assoc]

/-- By induction on the text, one token at a time. -/
theorem readAt_of_tokensFrom {line : Nat} {cs : List Char} {tokens : List Token}
    (h : tokensFrom line cs = .ok tokens) : ∀ token ∈ tokens, ReadAt line cs token := by
  induction hlength : cs.length using Nat.strongRecOn generalizing line cs tokens with
  | _ length ih =>
    by_cases hne : skipGap false cs = []
    case pos =>
      rw [tokensFrom_of_nil hne] at h
      cases h
      exact List.forall_mem_nil _
    case neg =>
      have hgap := gapText_append_skipGap false cs
      cases hscan : scan (skipGap false cs) with
      | error fault =>
        rw [tokensFrom_of_error hne hscan] at h
        cases h
      | ok scanned =>
        obtain ⟨-, hsplit, -⟩ := settled_scan _ scanned hscan
        have hrest := length_rest_lt hscan
        rw [tokensFrom_of_ok hne hscan] at h
        cases hothers : tokensFrom (line + newlines (gapText false cs) + newlines scanned.text)
            scanned.rest with
        | error error =>
          rw [hothers] at h
          cases h
        | ok others =>
          rw [hothers] at h
          cases h
          refine List.forall_mem_cons.2 ⟨⟨_, _, scanned, hgap.symm, hscan, rfl⟩, ?_⟩
          intro token htoken
          rw [← hgap, ← hsplit]
          exact (ih _ (hlength ▸ hrest) hothers rfl token htoken).behind.behind

end Lexer

namespace Token

open Lexer (IntegerLiteral Longest integerLexeme newlines)

variable {source : String} {tokens : List Token}

/-- The token is the longest literal at its place in the text, and it keeps the number that the
literal writes exactly when that takes less than 64 bits. -/
def IsLiteralOf (source : String) (token : Token) : Prop :=
  ∃ before text behind value, source.toList = before ++ (text ++ behind) ∧
    token.line = 1 + newlines before ∧ Longest text (text ++ behind) ∧ IntegerLiteral text value ∧
    token.lexeme = integerLexeme value text

theorem isLiteralOf_of_ofText (h : ofText source = .ok tokens) :
    ∀ token ∈ tokens, token.lexeme.isInteger = true → token.IsLiteralOf source := by
  intro token htoken hinteger
  obtain ⟨before, behind, scanned, hsource, hscan, rfl⟩ :=
    Lexer.readAt_of_tokensFrom h token htoken
  obtain ⟨hlongest, value, hliteral, hlexeme⟩ :=
    Lexer.takesLiteral_scan behind scanned hscan hinteger
  obtain ⟨-, rfl, -⟩ := Lexer.settled_scan behind scanned hscan
  exact ⟨before, scanned.text, scanned.rest, value, hsource, rfl, hlongest, hliteral, hlexeme⟩

/-- Each line up to that of a token ends in the text or holds the token. -/
theorem line_le_length_of_ofText (h : ofText source = .ok tokens) :
    ∀ token ∈ tokens, token.line ≤ source.length := by
  intro token htoken
  obtain ⟨before, behind, scanned, hsource, hscan, rfl⟩ :=
    Lexer.readAt_of_tokensFrom h token htoken
  cases behind with
  | nil => cases hscan
  | cons c behind =>
    have hlines : newlines before ≤ before.length := List.countP_le_length
    rw [← String.length_toList, hsource, List.length_append, List.length_cons]
    dsimp only
    omega

end Token

end HeaderForms
