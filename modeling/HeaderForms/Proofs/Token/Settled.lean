-- SUMMARY: Tokens end before a newline, or have it inside them.
import Mathlib.Data.List.Infix
import HeaderForms.Proofs.Token.Printed

/-!
# Settled tokens

A token is the longest that its first character allows, so what follows a text could take part in
its last token. A newline never does: no name, number or mark goes on over one, and what encloses
text either is closed before the end of the text or is no token of it. So each token of a text is
the same token where a newline and more text follow.
-/

namespace HeaderForms

open Numeral Float64

namespace Lexer

/-- The token of a step, if it has one, is a text at the front of `cs`, which is not empty. It is
the same token, with more text behind it, where a newline and more text stand behind `cs`; `longer`
is the step there. -/
def Settled (cs : List Char) (step : Step) (longer : List Char → Step) : Prop :=
  ∀ scanned, step = .ok scanned →
    scanned.text ≠ [] ∧ scanned.text ++ scanned.rest = cs ∧
      ∀ more, longer more = .ok ⟨scanned.lexeme, scanned.text, scanned.rest ++ '\n' :: more⟩

section

variable {cs text rest : List Char} {longer : List Char → Step}

theorem settled_ok {lexeme : Lexeme} (htext : text ≠ []) (hcs : text ++ rest = cs)
    (hlonger : ∀ more, longer more = .ok ⟨lexeme, text, rest ++ '\n' :: more⟩) :
    Settled cs (.ok ⟨lexeme, text, rest⟩) longer := by
  intro scanned heq
  cases heq
  exact ⟨htext, hcs, hlonger⟩

theorem settled_error {fault : SourceFault} : Settled cs (.error fault) longer := by
  intro scanned heq
  cases heq

theorem Settled.congr {step : Step} {longer' : List Char → Step} (h : Settled cs step longer)
    (heq : ∀ more, longer' more = longer more) : Settled cs step longer' := by
  intro scanned hscanned
  obtain ⟨htext, hcs, hlonger⟩ := h scanned hscanned
  exact ⟨htext, hcs, fun more => (heq more).trans (hlonger more)⟩

end

/-! ## Runs of characters -/

theorem stops_newline {kind : Char → Bool} (h : kind '\n' = false) (more : List Char) :
    Stops kind ('\n' :: more) :=
  stops_cons h more

/-- A run of characters ends with the text or before its end, whatever follows. -/
theorem Stops.takeWhile_eq_append {kind : Char → Bool} {rest : List Char} (h : Stops kind rest)
    (cs : List Char) : (cs ++ rest).takeWhile kind = cs.takeWhile kind := by
  induction cs with
  | nil => exact h.takeWhile_eq
  | cons c cs ih => simp only [List.cons_append, List.takeWhile_cons, ih]

theorem Stops.dropWhile_eq_append {kind : Char → Bool} {rest : List Char} (h : Stops kind rest)
    (cs : List Char) : (cs ++ rest).dropWhile kind = cs.dropWhile kind ++ rest := by
  induction cs with
  | nil => exact h.dropWhile_eq
  | cons c cs ih =>
    simp only [List.cons_append, List.dropWhile_cons, ih]
    split
    case isTrue => rfl
    case isFalse => rfl

theorem settled_nameToken (lexeme : List Char → Lexeme) {c : Char} (cs : List Char)
    (hc : Lexeme.isNameChar c = true) :
    Settled (c :: cs) (nameToken lexeme (c :: cs)) fun more =>
      nameToken lexeme (c :: cs ++ '\n' :: more) := by
  have hstops : ∀ more, Stops Lexeme.isNameChar ('\n' :: more) := stops_newline (by decide)
  refine settled_ok (by simp [List.takeWhile_cons_of_pos hc]) List.takeWhile_append_dropWhile ?_
  intro more
  rw [nameToken, (hstops more).takeWhile_eq_append, (hstops more).dropWhile_eq_append]

/-! ## Quoted texts -/

theorem quotedText_append {quote : Char} (hquote : quote ≠ '\\') {cs text rest : List Char}
    (h : quotedText quote cs = (text, some rest)) :
    text ++ quote :: rest = cs ∧
      ∀ more, quotedText quote (cs ++ more) = (text, some (rest ++ more)) := by
  fun_induction quotedText quote cs generalizing text with
  | case1 | case4 | case6 => cases h
  | case2 c cs hnewline inner behind hinner ih =>
    cases h
    obtain ⟨hcs, hmore⟩ := ih hinner
    refine ⟨by rw [← hcs]; rfl, fun more => ?_⟩
    rw [List.cons_append, List.cons_append, quotedText, if_neg hnewline, hmore]
  | case3 cs hslash =>
    cases h
    refine ⟨rfl, fun more => ?_⟩
    rw [List.cons_append, quotedText.eq_2, if_pos rfl]
    rintro d ds rfl
    exact absurd rfl hquote
  | case5 c cs hslash hclose hplain inner behind hinner ih =>
    cases h
    obtain ⟨hcs, hmore⟩ := ih hinner
    refine ⟨by rw [← hcs]; rfl, fun more => ?_⟩
    rw [List.cons_append, quotedText.eq_2, if_neg hclose, if_neg hplain, hmore]
    rintro d ds rfl
    exact absurd rfl hplain

theorem settled_quotedToken {quote : Char} (hquote : quote ≠ '\\') (lexeme : String → Lexeme)
    (cs : List Char) :
    Settled (quote :: cs) (quotedToken quote lexeme cs) fun more =>
      quotedToken quote lexeme (cs ++ '\n' :: more) := by
  unfold quotedToken
  split
  case h_2 => exact settled_error
  case h_1 text rest htext =>
    obtain ⟨hcs, hmore⟩ := quotedText_append hquote htext
    cases hvalue : Escape.unescape text with
    | error => exact settled_error
    | ok value =>
      refine settled_ok (by simp) (by simp [← hcs]) fun more => ?_
      simp only [hmore, hvalue]
      rfl

/-! ## Character literals -/

theorem takeWhile_take_append {kind : Char → Bool} (h : kind '\n' = false) (n : Nat)
    (cs more : List Char) :
    ((cs ++ '\n' :: more).take n).takeWhile kind = (cs.take n).takeWhile kind := by
  induction cs generalizing n with
  | nil =>
    cases n with
    | zero => rfl
    | succ n => exact (stops_newline h _).takeWhile_eq
  | cons c cs ih =>
    cases n with
    | zero => rfl
    | succ n => simp only [List.cons_append, List.take_succ_cons, List.takeWhile_cons, ih]

theorem characterText_octal {c : Char} (h : Escape.isOctal c = true) (cs : List Char) :
    characterText ('\\' :: c :: cs) =
      .ok ('\\' :: c :: (cs.take 2).takeWhile Escape.isOctal,
        cs.drop ((cs.take 2).takeWhile Escape.isOctal).length) := by
  cases cs with
  | nil => exact if_pos h
  | cons => exact if_pos h

/-- A character that stands for itself behind a backslash, or is a letter for another. -/
theorem characterText_plain {c : Char} (hoctal : ¬ Escape.isOctal c = true) (hcontrol : c ≠ '^')
    (hcode : c ≠ 'x') (cs : List Char) :
    characterText ('\\' :: c :: cs) = .ok (['\\', c], cs) := by
  cases cs with
  | nil => rw [characterText.eq_2, if_neg hoctal, if_neg hcontrol, if_neg hcode]
  | cons => rw [characterText.eq_1, if_neg hoctal, if_neg hcontrol, if_neg hcode]

theorem characterText_braced {digits : List Char} (hne : digits ≠ [])
    (hdigits : ∀ c ∈ digits, isHex c = true) (rest : List Char) :
    characterText ('\\' :: 'x' :: '\x7b' :: (digits ++ '\x7d' :: rest)) =
      .ok (['\\', 'x', '\x7b'] ++ digits ++ ['\x7d'], rest) := by
  have hstops : Stops isHex ('\x7d' :: rest) := stops_cons (by decide) rest
  rw [characterText.eq_1, if_neg (by decide), if_neg (by decide), if_pos rfl]
  simp only [hstops.takeWhile_append hdigits, hstops.dropWhile_append hdigits]

theorem characterText_pair {a b : Char} (hbrace : a ≠ '\x7b') (hhex : (isHex a && isHex b) = true)
    (rest : List Char) :
    characterText ('\\' :: 'x' :: a :: b :: rest) = .ok (['\\', 'x', a, b], rest) := by
  rw [characterText.eq_1, if_neg (by decide), if_neg (by decide), if_pos rfl]
  split
  case h_1 heq => exact absurd (List.cons.inj heq).1 hbrace
  case h_2 heq =>
    cases heq
    exact if_pos hhex
  case h_3 hshort => exact absurd rfl (hshort a b rest)

/-- A character literal ends before a newline, or holds it behind a dollar or a backslash. -/
theorem characterText_append {cs text rest : List Char} (h : characterText cs = .ok (text, rest)) :
    text ++ rest = cs ∧
      ∀ more, characterText (cs ++ '\n' :: more) = .ok (text, rest ++ '\n' :: more) := by
  revert h
  fun_cases characterText cs with
  | case1 c cs hoctal more =>
    rintro ⟨⟩
    have hprefix : more <+: cs := (List.takeWhile_prefix _).trans (List.take_prefix 2 cs)
    refine ⟨by rw [List.cons_append, List.cons_append, List.prefix_iff_eq_append.1 hprefix], ?_⟩
    intro behind
    rw [List.cons_append, List.cons_append, characterText_octal hoctal,
      takeWhile_take_append (by decide), List.drop_append_of_le_length hprefix.length_le]
  | case3 d rest hnewline =>
    rintro ⟨⟩
    exact ⟨rfl, fun more => if_neg hnewline⟩
  | case6 inner digits rest hbrace hdigits =>
    rintro ⟨⟩
    have hinner : digits ++ '\x7d' :: rest = inner :=
      hbrace ▸ List.takeWhile_append_dropWhile
    have hhex : ∀ c ∈ digits, isHex c = true := fun c hc => List.mem_takeWhile_imp hc
    clear_value digits
    subst hinner
    refine ⟨by simp, fun more => ?_⟩
    simpa using characterText_braced hdigits hhex (rest ++ '\n' :: more)
  | case8 a b rest hbrace hhex =>
    rintro ⟨⟩
    exact ⟨rfl, fun more => characterText_pair hbrace hhex _⟩
  | case11 c cs hoctal hcontrol hcode =>
    rintro ⟨⟩
    exact ⟨rfl, fun more => characterText_plain hoctal hcontrol hcode _⟩
  | case13 c cs hslash hlone =>
    have hne : c ≠ '\\' := by
      rintro rfl
      cases cs with
      | nil => exact hlone rfl rfl
      | cons d ds => exact hslash d ds rfl rfl
    rintro ⟨⟩
    exact ⟨rfl, fun more => characterText.eq_4 _ _ (fun _ _ heq => absurd heq hne)
      fun heq => absurd heq hne⟩
  | _ => rintro ⟨⟩

theorem settled_characterToken (cs : List Char) :
    Settled ('$' :: cs) (characterToken cs) fun more => characterToken (cs ++ '\n' :: more) := by
  unfold characterToken
  split
  case h_2 => exact settled_error
  case h_1 text rest htext =>
    obtain ⟨hcs, hmore⟩ := characterText_append htext
    cases hvalue : Escape.unescape text with
    | error => exact settled_error
    | ok value =>
      match value with
      | [c] =>
        refine settled_ok (by simp) (by simp [hcs]) fun more => ?_
        simp only [hmore, hvalue]
        rfl
      | [] | _ :: _ :: _ => exact settled_error

/-! ## Numbers -/

theorem settled_decimalToken {digits : List Char} (h : IsDigits digits) (rest : List Char) :
    Settled (digits ++ rest) (decimalToken digits rest) fun more =>
      decimalToken digits (rest ++ '\n' :: more) :=
  settled_ok h.1 rfl fun _ => rfl

theorem settled_radixToken {base : List Char} (hbase : IsDigits base) (rest : List Char) :
    Settled (base ++ '#' :: rest) (radixToken base rest) fun more =>
      radixToken base (rest ++ '\n' :: more) := by
  have hmore : ∀ more, (rest ++ '\n' :: more).takeWhile (fun c => isLetter c || isDigit c) =
      rest.takeWhile fun c => isLetter c || isDigit c :=
    fun more => (stops_newline (by decide) more).takeWhile_eq_append rest
  have hprefix : rest.takeWhile (fun c => isLetter c || isDigit c) <+: rest :=
    List.takeWhile_prefix _
  simp only [radixToken, hmore]
  split
  case isTrue =>
    split
    case isTrue => exact settled_ok hbase.1 rfl fun _ => rfl
    case isFalse => exact settled_error
  case isFalse =>
    split
    case isTrue =>
      refine settled_ok (by simp) ?_ fun more => ?_
      · rw [List.append_assoc, List.cons_append, List.prefix_iff_eq_append.1 hprefix]
      · rw [List.drop_append_of_le_length hprefix.length_le]
    case isFalse => exact settled_error

theorem splitSign_append (cs more : List Char) :
    (splitSign (cs ++ '\n' :: more)).2 = (splitSign cs).2 ++ '\n' :: more := by
  cases cs with
  | nil => rfl
  | cons c cs =>
    by_cases hminus : c = '-'
    case pos =>
      subst hminus
      rfl
    case neg =>
      by_cases hplus : c = '+'
      case pos =>
        subst hplus
        rfl
      case neg =>
        rw [splitSign_eq (by simpa using hminus) (by simpa using hplus),
          splitSign_eq (by simpa using hminus) (by simpa using hplus)]

theorem splitSign_suffix (cs : List Char) : (splitSign cs).2 <:+ cs := by
  fun_cases splitSign cs with
  | case1 | case2 => exact List.suffix_cons _ _
  | case3 => exact List.suffix_rfl

theorem exponentText_eq (cs : List Char) : (exponentText cs).1 ++ (exponentText cs).2 = cs := by
  fun_cases exponentText cs with
  | case1 c cs digits _ rest =>
    have hsuffix : rest <:+ c :: cs :=
      ((List.dropWhile_suffix _).trans (splitSign_suffix cs)).trans (List.suffix_cons c cs)
    exact List.suffix_iff_eq_append.1 hsuffix
  | case2 | case3 => rfl

theorem exponentText_append (cs more : List Char) :
    exponentText (cs ++ '\n' :: more) =
      ((exponentText cs).1, (exponentText cs).2 ++ '\n' :: more) := by
  cases cs with
  | nil => rfl
  | cons c cs =>
    have hhead : (((splitSign cs).2 ++ '\n' :: more).head?.any isDigit) =
        (splitSign cs).2.head?.any isDigit := by
      cases (splitSign cs).2 with
      | nil => rfl
      | cons => rfl
    have hstops : Stops isDigit ('\n' :: more) := stops_newline (by decide) more
    simp only [List.cons_append, exponentText, splitSign_append, hhead, hstops.dropWhile_eq_append]
    split
    case isTrue =>
      have hlength : (c :: (cs ++ '\n' :: more)).length -
          ((splitSign cs).2.dropWhile isDigit ++ '\n' :: more).length =
          (c :: cs).length - ((splitSign cs).2.dropWhile isDigit).length := by
        simp only [List.length_cons, List.length_append]
        omega
      rw [hlength, ← List.cons_append, List.take_append_of_le_length (Nat.sub_le _ _)]
    case isFalse => rfl

theorem settled_floatToken (whole rest : List Char) :
    Settled (whole ++ '.' :: rest) (floatToken whole rest) fun more =>
      floatToken whole (rest ++ '\n' :: more) := by
  have hstops : ∀ more, Stops isDigit ('\n' :: more) := stops_newline (by decide)
  simp only [floatToken, (hstops _).takeWhile_eq_append, (hstops _).dropWhile_eq_append,
    exponentText_append]
  split
  case h_2 => exact settled_error
  case h_1 value hvalue =>
    refine settled_ok (by simp) ?_ fun _ => rfl
    simp [exponentText_eq]

theorem settled_numberBehind {digits : List Char} (h : IsDigits digits) (rest : List Char) :
    Settled (digits ++ rest) (numberBehind digits rest) fun more =>
      numberBehind digits (rest ++ '\n' :: more) := by
  fun_cases numberBehind digits rest with
  | case1 rest => exact settled_radixToken h rest
  | case2 c rest hc =>
    exact (settled_floatToken digits (c :: rest)).congr fun more => if_pos hc
  | case3 c rest hc =>
    exact (settled_decimalToken h ('.' :: c :: rest)).congr fun more => if_neg hc
  | case4 rest hbase hpoint =>
    refine (settled_decimalToken h rest).congr fun more => ?_
    cases rest with
    | nil => rfl
    | cons c rest =>
      have hc : c ≠ '#' := by
        rintro rfl
        exact hbase rest rfl
      by_cases hmark : c = '.'
      case pos =>
        subst hmark
        cases rest with
        | nil => rfl
        | cons d rest => exact (hpoint d rest rfl).elim
      case neg => exact numberBehind.eq_3 _ _ (by simp [hc]) (by simp [hmark])

theorem numberToken_eq (cs : List Char) :
    numberToken cs = numberBehind (cs.takeWhile isDigit) (cs.dropWhile isDigit) :=
  rfl

theorem settled_numberToken {c : Char} (cs : List Char) (hc : isDigit c = true) :
    Settled (c :: cs) (numberToken (c :: cs)) fun more =>
      numberToken (c :: cs ++ '\n' :: more) := by
  have hdigits : IsDigits ((c :: cs).takeWhile isDigit) :=
    ⟨by simp [List.takeWhile_cons_of_pos hc], fun d hd => List.mem_takeWhile_imp hd⟩
  have hsettled := settled_numberBehind hdigits ((c :: cs).dropWhile isDigit)
  rw [List.takeWhile_append_dropWhile] at hsettled
  have hstops : ∀ more, Stops isDigit ('\n' :: more) := stops_newline (by decide)
  refine hsettled.congr fun more => ?_
  rw [numberToken_eq, (hstops more).takeWhile_eq_append, (hstops more).dropWhile_eq_append]

/-! ## Marks -/

theorem prefix_of_punctAt? {cs : List Char} {mark : Punct} (h : punctAt? cs = some mark) :
    mark.text.toList <+: cs := by
  have hprefix : mark.text.toList.isPrefixOf cs = true :=
    List.find?_some (p := fun mark : Punct => mark.text.toList.isPrefixOf cs) h
  exact List.isPrefixOf_iff_prefix.1 hprefix

theorem endsDeclaration_append (cs more : List Char) :
    endsDeclaration (cs ++ '\n' :: more) = endsDeclaration cs := by
  cases cs with
  | nil => rfl
  | cons => rfl

theorem settled_punctToken (cs : List Char) :
    Settled cs (punctToken cs) fun more => punctToken (cs ++ '\n' :: more) := by
  have hmore : ∀ more, punctAt? (cs ++ '\n' :: more) = punctAt? cs :=
    fun more => punctAt?_append_stops (stops_newline (by decide +kernel) more)
  simp only [punctToken, hmore]
  split
  case h_1 hmark =>
    obtain ⟨rest, rfl⟩ := prefix_of_punctAt? hmark
    refine settled_ok (by simp) rfl fun more => ?_
    have hdrop : (Punct.period.text.toList ++ rest ++ '\n' :: more).drop 1 =
        rest ++ '\n' :: more := rfl
    rw [hdrop, endsDeclaration_append]
    rfl
  case h_2 mark _ hmark =>
    obtain ⟨rest, rfl⟩ := prefix_of_punctAt? hmark
    refine settled_ok ?_ (by rw [List.drop_left]) fun more => ?_
    · obtain ⟨c, cs, htext, -⟩ := exists_startsMark mark
      rw [htext]
      exact List.cons_ne_nil c cs
    · rw [List.append_assoc, List.drop_left, List.drop_left]
  case h_3 => exact settled_error

/-! ## Single tokens -/

theorem settled_scan (cs : List Char) :
    Settled cs (scan cs) fun more => scan (cs ++ '\n' :: more) := by
  cases cs with
  | nil => exact settled_error
  | cons c cs =>
    simp only [List.cons_append, scan]
    split
    case isTrue hlower => exact settled_nameToken word cs (isNameChar_of_isLower hlower)
    case isFalse =>
      split
      case isTrue hstart => exact settled_nameToken _ cs (isNameChar_of_start hstart)
      case isFalse =>
        split
        case isTrue hdigit => exact settled_numberToken cs hdigit
        case isFalse =>
          split
          case isTrue hquote => exact settled_quotedToken (by simp [hquote]) .atom cs
          case isFalse =>
            split
            case isTrue hquote => exact settled_quotedToken (by simp [hquote]) .string cs
            case isFalse =>
              split
              case isTrue hdollar => exact hdollar ▸ settled_characterToken cs
              case isFalse => exact settled_punctToken (c :: cs)

/-- A token stays the same where a newline and more text follow. -/
theorem scan_append {cs : List Char} {scanned : Scanned} (h : scan cs = .ok scanned)
    (more : List Char) :
    scan (cs ++ '\n' :: more) =
      .ok ⟨scanned.lexeme, scanned.text, scanned.rest ++ '\n' :: more⟩ :=
  (settled_scan cs scanned h).2.2 more

end Lexer

end HeaderForms
