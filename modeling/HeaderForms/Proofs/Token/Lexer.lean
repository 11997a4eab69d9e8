-- SUMMARY: The lexemes of lexed text: names of variables, sizes of integers, texts of large ones.
import HeaderForms.Proofs.Float64.Text
import HeaderForms.Token.Lexer

/-!
# Lexemes of lexed text

A variable starts with a capital letter or an underscore, which no other name of the host language
does. A number has no sign, an integer that is kept as a number takes less than 64 bits, and the
others keep the digits they were written with.
-/

namespace HeaderForms

open Numeral Float64

/-- A name that starts like a variable. -/
def IsVariableName (name : String) : Prop :=
  ∃ c rest, name.toList = c :: rest ∧ (Lexer.isUpper c || c = '_') = true

/-- The text of an integer that takes 64 bits or more. -/
inductive IsBigText : List Char → Prop
  | decimal {digits : List Char} : IsDigits digits → ¬ inInt64 (ofDigits 10 0 digits) →
      IsBigText digits
  | radix {base digits : List Char} : IsDigits base → digits ≠ [] →
      (∀ c ∈ digits, (isLetter c || isDigit c) = true) →
      2 ≤ ofDigits 10 0 base → ofDigits 10 0 base ≤ 36 →
      (∀ c ∈ digits, isDigitOf (ofDigits 10 0 base) c = true) →
      ¬ inInt64 (ofDigits (ofDigits 10 0 base) 0 digits) → IsBigText (base ++ '#' :: digits)

namespace Lexeme

/-- A lexeme that a text can hold. -/
inductive IsLexed : Lexeme → Prop
  | atom (name : String) : IsLexed (.atom name)
  | var {name : String} : IsVariableName name → (∀ c ∈ name.toList, isNameChar c = true) →
      IsLexed (.var name)
  | integer {value : Nat} : inInt64 value = true → IsLexed (.integer value)
  | bigInteger {text : String} : IsBigText text.toList → IsLexed (.bigInteger text)
  | float {value : Float64} : value.isNegative = false → value.isNaN = false →
      IsLexed (.float value)
  | char (value : Char) : IsLexed (.char value)
  | string (text : String) : IsLexed (.string text)
  | keyword (word : Keyword) : IsLexed (.keyword word)
  | punct (mark : Punct) : IsLexed (.punct mark)
  | dot : IsLexed .dot

end Lexeme

/-- A token that is no variable or has the name of one. -/
def Token.Lexed (token : Token) : Prop :=
  ∀ name, token.lexeme = .var name → IsVariableName name

theorem Lexeme.IsLexed.isVariableName {token : Token} (h : token.lexeme.IsLexed) : token.Lexed := by
  intro name hname
  rw [hname] at h
  cases h with
  | var hvariable => exact hvariable

namespace Lexer

open Lexeme (IsLexed)

/-- The lexeme of a step, if it has one, has the property. -/
def Gives (good : Lexeme → Prop) (step : Step) : Prop :=
  ∀ scanned, step = .ok scanned → good scanned.lexeme

section

variable {good : Lexeme → Prop}

theorem gives_ok {lexeme : Lexeme} {text rest : List Char} (h : good lexeme) :
    Gives good (.ok ⟨lexeme, text, rest⟩) := by
  intro scanned heq
  cases heq
  exact h

theorem gives_error {fault : SourceFault} : Gives good (.error fault) := by
  intro scanned heq
  cases heq

theorem gives_bind {α : Type} {value : Except SourceFault α} {next : α → Step}
    (h : ∀ found, Gives good (next found)) : Gives good (value >>= next) := by
  cases value with
  | error => exact gives_error
  | ok found => exact h found

/-! ## Names, quoted texts and marks -/

theorem gives_word (hkeyword : ∀ word, good (.keyword word)) (hatom : ∀ name, good (.atom name))
    (cs : List Char) : Gives good (nameToken word cs) := by
  refine gives_ok ?_
  dsimp only [word]
  split
  case h_1 word _ => exact hkeyword word
  case h_2 => exact hatom _

theorem gives_quotedToken (quote : Char) {lexeme : String → Lexeme}
    (hlexeme : ∀ text, good (lexeme text)) (cs : List Char) :
    Gives good (quotedToken quote lexeme cs) := by
  unfold quotedToken
  split
  case h_1 => exact gives_bind fun value => gives_ok (hlexeme _)
  case h_2 => exact gives_error

theorem gives_characterToken (hchar : ∀ value, good (.char value)) (cs : List Char) :
    Gives good (characterToken cs) := by
  unfold characterToken
  split
  case h_1 =>
    refine gives_bind fun value => ?_
    split
    case h_1 c => exact gives_ok (hchar c)
    case h_2 => exact gives_error
  case h_2 => exact gives_error

theorem gives_punctToken (hdot : good .dot) (hpunct : ∀ mark, good (.punct mark))
    (cs : List Char) : Gives good (punctToken cs) := by
  unfold punctToken
  split
  case h_1 =>
    refine gives_ok ?_
    split
    case isTrue => exact hdot
    case isFalse => exact hpunct .period
  case h_2 mark _ _ => exact gives_ok (hpunct mark)
  case h_3 => exact gives_error

end

/-! ## Variables -/

theorem isNameChar_of_isLower {c : Char} (h : Lexeme.isLower c = true) :
    Lexeme.isNameChar c = true := by
  simp only [Lexeme.isLower] at h
  simp [Lexeme.isNameChar, isLetter, h]

theorem isNameChar_of_start {c : Char} (h : (isUpper c || c = '_') = true) :
    Lexeme.isNameChar c = true := by
  rw [Bool.or_eq_true] at h
  rcases h with hupper | hunderscore
  · simp only [isUpper] at hupper
    simp [Lexeme.isNameChar, isLetter, hupper]
  · simp [Lexeme.isNameChar, hunderscore]

theorem gives_variable {c : Char} {rest : List Char} (h : (isUpper c || c = '_') = true) :
    Gives IsLexed (nameToken (.var ∘ String.ofList) (c :: rest)) := by
  refine gives_ok (.var ⟨c, rest.takeWhile Lexeme.isNameChar, ?_, h⟩ fun d hd => ?_)
  · rw [String.toList_ofList, List.takeWhile_cons_of_pos (isNameChar_of_start h)]
  · rw [String.toList_ofList] at hd
    exact List.mem_takeWhile_imp hd

/-! ## Numbers -/

theorem integerLexeme_cases {p : Lexeme → Prop} {value : Nat} {text : List Char}
    (hsmall : inInt64 value = true → p (.integer value))
    (hlarge : ¬ inInt64 value → p (.bigInteger (String.ofList text))) :
    p (integerLexeme value text) := by
  unfold integerLexeme
  split
  case isTrue h => exact hsmall h
  case isFalse h => exact hlarge h

theorem isLexed_integerLexeme {value : Nat} {text : List Char}
    (h : ¬ inInt64 value → IsBigText text) : (integerLexeme value text).IsLexed :=
  integerLexeme_cases .integer fun hlarge =>
    .bigInteger (by rw [String.toList_ofList]; exact h hlarge)

theorem gives_decimalToken {digits : List Char} (hdigits : IsDigits digits) (rest : List Char) :
    Gives IsLexed (decimalToken digits rest) :=
  gives_ok (isLexed_integerLexeme (.decimal hdigits))

theorem gives_radixToken {base : List Char} (hbase : IsDigits base) (rest : List Char) :
    Gives IsLexed (radixToken base rest) := by
  simp only [radixToken]
  split
  case isTrue =>
    split
    case isTrue hsmall => exact gives_ok (.integer hsmall)
    case isFalse => exact gives_error
  case isFalse hempty =>
    split
    case isTrue hdigits =>
      simp only [Bool.and_eq_true, decide_eq_true_eq, List.all_eq_true] at hdigits
      refine gives_ok (isLexed_integerLexeme fun hlarge => ?_)
      have halnum : ∀ c ∈ rest.takeWhile (fun c => isLetter c || isDigit c),
          (isLetter c || isDigit c) = true :=
        fun c hc => List.mem_takeWhile_imp (p := fun c => isLetter c || isDigit c) hc
      exact .radix hbase (by simpa using hempty) halnum
        hdigits.1.1 hdigits.1.2 hdigits.2 hlarge
    case isFalse => exact gives_error

theorem gives_floatToken {whole : List Char} (hwhole : IsDigits whole) (rest : List Char) :
    Gives IsLexed (floatToken whole rest) := by
  obtain ⟨c, more, rfl, hc⟩ := hwhole.exists_cons
  simp only [floatToken]
  split
  case h_1 value hvalue =>
    obtain ⟨hsign, hnan⟩ := parse?_of_isDigit hc hvalue
    exact gives_ok (.float hsign hnan)
  case h_2 => exact gives_error

theorem gives_numberToken {c : Char} {rest : List Char} (hc : isDigit c = true) :
    Gives IsLexed (numberToken (c :: rest)) := by
  have hdigits : IsDigits ((c :: rest).takeWhile isDigit) :=
    ⟨by simp [List.takeWhile_cons_of_pos hc], fun d hd => List.mem_takeWhile_imp hd⟩
  unfold numberToken
  split
  case h_1 => exact gives_radixToken hdigits _
  case h_2 =>
    split
    case isTrue => exact gives_floatToken hdigits _
    case isFalse => exact gives_decimalToken hdigits _
  case h_3 => exact gives_decimalToken hdigits _

/-! ## Texts -/

theorem gives_scan (cs : List Char) : Gives IsLexed (scan cs) := by
  unfold scan
  split
  case h_1 => exact gives_error
  case h_2 c rest =>
    split
    case isTrue => exact gives_word .keyword .atom _
    case isFalse =>
      split
      case isTrue hstart => exact gives_variable hstart
      case isFalse =>
        split
        case isTrue hdigit => exact gives_numberToken hdigit
        case isFalse =>
          split
          case isTrue => exact gives_quotedToken c IsLexed.atom rest
          case isFalse =>
            split
            case isTrue => exact gives_quotedToken c IsLexed.string rest
            case isFalse =>
              split
              case isTrue => exact gives_characterToken .char rest
              case isFalse => exact gives_punctToken .dot .punct _

theorem isLexed_tokensWithin {steps line : Nat} {cs : List Char} {tokens : List Token}
    (h : tokensWithin steps line cs = .ok tokens) : ∀ token ∈ tokens, token.lexeme.IsLexed := by
  induction steps generalizing line cs tokens with
  | zero =>
    cases h
    exact List.forall_mem_nil _
  | succ steps ih =>
    simp only [tokensWithin] at h
    split at h
    case isTrue =>
      cases h
      exact List.forall_mem_nil _
    case isFalse =>
      split at h
      case h_1 => cases h
      case h_2 scanned hscan =>
        cases hrest : tokensWithin steps
            (line + newlines (gapText false cs) + newlines scanned.text) scanned.rest with
        | error =>
          rw [hrest] at h
          cases h
        | ok others =>
          rw [hrest] at h
          cases h
          exact List.forall_mem_cons.2 ⟨gives_scan _ scanned hscan, ih hrest⟩

end Lexer

namespace Token

theorem isLexed_ofText {source : String} {tokens : List Token} (h : ofText source = .ok tokens) :
    ∀ token ∈ tokens, token.lexeme.IsLexed :=
  Lexer.isLexed_tokensWithin h

theorem lexed_ofText {source : String} {tokens : List Token} (h : ofText source = .ok tokens) :
    ∀ token ∈ tokens, token.Lexed :=
  fun token htoken => (isLexed_ofText h token htoken).isVariableName

end Token

end HeaderForms
