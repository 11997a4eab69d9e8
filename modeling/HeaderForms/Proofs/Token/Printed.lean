-- SUMMARY: The printed text of a lexeme is scanned as one token.
import HeaderForms.Proofs.Token.Lexer
import HeaderForms.Token.Printer

/-!
# Printed lexemes

Between spaces the text of a lexeme is one token, and the token is the lexeme again. What may follow
a token depends on its kind: a name ends before any character that no name holds, a number before
any that neither continues its digits nor starts a fraction or a base.
-/

namespace HeaderForms

open Numeral Float64

namespace Lexer

/-! ## What follows a token -/

/-- A text that ends or goes on with a space. -/
inductive Ends : List Char → Prop
  | nil : Ends []
  | space (rest : List Char) : Ends (' ' :: rest)

/-- A text that does not go on with a character of this kind. -/
def Stops (kind : Char → Bool) (rest : List Char) : Prop :=
  ∀ c ∈ rest.head?, kind c = false

theorem Ends.stops {rest : List Char} (h : Ends rest) {kind : Char → Bool}
    (hspace : kind ' ' = false) : Stops kind rest := by
  intro c hc
  cases h with
  | nil => cases hc
  | space =>
    cases hc
    exact hspace

section

variable {kind : Char → Bool} {cs rest : List Char}

theorem Stops.takeWhile_eq (h : Stops kind rest) : rest.takeWhile kind = [] := by
  cases rest with
  | nil => rfl
  | cons c rest => exact List.takeWhile_cons_of_neg (by simp [h c rfl])

theorem Stops.dropWhile_eq (h : Stops kind rest) : rest.dropWhile kind = rest := by
  cases rest with
  | nil => rfl
  | cons c rest => exact List.dropWhile_cons_of_neg (by simp [h c rfl])

theorem Stops.takeWhile_append (h : Stops kind rest) (hcs : ∀ c ∈ cs, kind c = true) :
    (cs ++ rest).takeWhile kind = cs := by
  rw [List.takeWhile_append_of_pos hcs, h.takeWhile_eq, List.append_nil]

theorem Stops.dropWhile_append (h : Stops kind rest) (hcs : ∀ c ∈ cs, kind c = true) :
    (cs ++ rest).dropWhile kind = rest := by
  rw [List.dropWhile_append_of_pos hcs, h.dropWhile_eq]

end

theorem stops_cons {kind : Char → Bool} {c : Char} (h : kind c = false) (rest : List Char) :
    Stops kind (c :: rest) := by
  intro d hd
  cases hd
  exact h

/-- A text that starts with a token. -/
def Starts (cs : List Char) : Prop :=
  ∃ c rest, cs = c :: rest ∧ isGap c = false ∧ c ≠ '%'

/-- The text is one token, this lexeme, before every text that `follow` admits. -/
structure Scans (follow : List Char → Prop) (cs : List Char) (lexeme : Lexeme) : Prop where
  starts : Starts cs
  scan_eq : ∀ rest, follow rest → scan (cs ++ rest) = .ok ⟨lexeme, cs, rest⟩

theorem Scans.mono {follow follow' : List Char → Prop} {cs : List Char} {lexeme : Lexeme}
    (h : Scans follow cs lexeme) (hfollow : ∀ rest, follow' rest → follow rest) :
    Scans follow' cs lexeme :=
  ⟨h.starts, fun rest hrest => h.scan_eq rest (hfollow rest hrest)⟩

/-- A character of a kind that no gap starts with. -/
theorem starts_of (kind : Char → Bool) {c : Char} {rest : List Char} (hc : kind c = true)
    (hgaps : [' ', '\t', '\r', '\n', '\x0c', '%'].any kind = false) : Starts (c :: rest) := by
  have hne : ∀ d ∈ [' ', '\t', '\r', '\n', '\x0c', '%'], c ≠ d := by
    rintro d hd rfl
    rw [List.any_eq_false] at hgaps
    exact hgaps c hd hc
  refine ⟨c, rest, rfl, ?_, hne '%' (by simp)⟩
  simp only [isGap, Bool.or_eq_false_iff, decide_eq_false_iff_not]
  exact ⟨⟨⟨⟨hne _ (by simp), hne _ (by simp)⟩, hne _ (by simp)⟩, hne _ (by simp)⟩, hne _ (by simp)⟩

/-! ## The first character -/

/-- A character that starts a name of a variable. -/
def startsVariable (c : Char) : Bool :=
  isUpper c || c = '_'

theorem isLower_iff {c : Char} : Lexeme.isLower c = true ↔ 97 ≤ c.toNat ∧ c.toNat ≤ 122 := by
  simp [Lexeme.isLower, Char.le_def, UInt32.le_iff_toNat_le]

theorem isUpper_iff {c : Char} : isUpper c = true ↔ 65 ≤ c.toNat ∧ c.toNat ≤ 90 := by
  simp [isUpper, Char.le_def, UInt32.le_iff_toNat_le]

theorem toNat_of_startsVariable {c : Char} (h : startsVariable c = true) :
    65 ≤ c.toNat ∧ c.toNat ≤ 95 := by
  rw [startsVariable, Bool.or_eq_true] at h
  rcases h with hupper | hunderscore
  · have := isUpper_iff.1 hupper
    omega
  · rw [of_decide_eq_true hunderscore]
    decide

variable {c : Char} (cs : List Char)

theorem scan_lower (hc : Lexeme.isLower c = true) : scan (c :: cs) = nameToken word (c :: cs) :=
  if_pos hc

theorem scan_startsVariable (hc : startsVariable c = true) :
    scan (c :: cs) = nameToken (.var ∘ String.ofList) (c :: cs) := by
  have hrange := toNat_of_startsVariable hc
  have hlower : ¬ Lexeme.isLower c = true := fun h => by
    have := isLower_iff.1 h
    omega
  rw [scan, if_neg hlower]
  exact if_pos hc

theorem scan_digit (hc : isDigit c = true) : scan (c :: cs) = numberToken (c :: cs) := by
  have hrange := toNat_of_isDigit hc
  have hlower : ¬ Lexeme.isLower c = true := fun h => by
    have := isLower_iff.1 h
    omega
  have hvariable : ¬ (isUpper c || c = '_') = true := fun h => by
    have := toNat_of_startsVariable h
    omega
  rw [scan, if_neg hlower, if_neg hvariable, if_pos hc]

/-! ## Names -/

variable {cs}

theorem scans_word (hc : Lexeme.isLower c = true) (hcs : ∀ d ∈ cs, Lexeme.isNameChar d = true) :
    Scans (Stops Lexeme.isNameChar) (c :: cs) (word (c :: cs)) := by
  have hall : ∀ d ∈ c :: cs, Lexeme.isNameChar d = true :=
    List.forall_mem_cons.2 ⟨isNameChar_of_isLower hc, hcs⟩
  refine ⟨starts_of Lexeme.isLower hc (by decide), fun rest hrest => ?_⟩
  rw [List.cons_append, scan_lower _ hc, ← List.cons_append, nameToken,
    hrest.takeWhile_append hall, hrest.dropWhile_append hall]

theorem scans_variable (hc : startsVariable c = true)
    (hcs : ∀ d ∈ c :: cs, Lexeme.isNameChar d = true) :
    Scans (Stops Lexeme.isNameChar) (c :: cs) (.var (String.ofList (c :: cs))) := by
  refine ⟨starts_of startsVariable hc (by decide), fun rest hrest => ?_⟩
  rw [List.cons_append, scan_startsVariable _ hc, ← List.cons_append, nameToken,
    hrest.takeWhile_append hcs, hrest.dropWhile_append hcs]
  rfl

theorem word_text (keyword : Keyword) : word keyword.text.toList = .keyword keyword := by
  cases keyword <;> decide +kernel

theorem scans_keyword (keyword : Keyword) :
    Scans (Stops Lexeme.isNameChar) keyword.text.toList (.keyword keyword) := by
  have hall : ∀ keyword ∈ Keyword.all, keyword.text.toList.head?.any Lexeme.isLower = true ∧
      keyword.text.toList.tail.all Lexeme.isNameChar = true := by decide +kernel
  obtain ⟨hhead, htail⟩ := hall keyword (by cases keyword <;> decide)
  have hword := word_text keyword
  cases htext : keyword.text.toList with
  | nil =>
    rw [htext] at hhead
    cases hhead
  | cons c cs =>
    rw [htext] at hhead htail hword
    rw [← hword]
    exact scans_word hhead (List.all_eq_true.1 htail)

theorem scans_bareAtom {name : String} (h : Lexeme.isBareAtom name = true) :
    Scans (Stops Lexeme.isNameChar) name.toList (.atom name) := by
  unfold Lexeme.isBareAtom at h
  split at h
  case h_1 c cs htext =>
    simp only [Bool.and_eq_true, List.all_eq_true, Option.isNone_iff_eq_none] at h
    have hword : word (c :: cs) = .atom name := by
      rw [← htext, word, String.ofList_toList]
      simp only [h.2]
    rw [htext, ← hword]
    exact scans_word h.1.1 h.1.2
  case h_2 => cases h

/-! ## Numbers -/

/-- A character that goes on with the number behind digits. -/
def continuesNumber (c : Char) : Bool :=
  isDigit c || c = '#' || c = '.'

theorem starts_digits {digits : List Char} (h : IsDigits digits) (rest : List Char) :
    Starts (digits ++ rest) := by
  obtain ⟨c, more, rfl, hc⟩ := h.exists_cons
  exact starts_of isDigit hc (by decide)

/-- The number with these digits at its front, from the text behind them. -/
def numberBehind (digits : List Char) : List Char → Step
  | '#' :: rest => radixToken digits rest
  | '.' :: c :: rest =>
    if isDigit c then floatToken digits (c :: rest) else decimalToken digits ('.' :: c :: rest)
  | rest => decimalToken digits rest

theorem scan_digits {digits rest : List Char} (h : IsDigits digits) (hrest : Stops isDigit rest) :
    scan (digits ++ rest) = numberBehind digits rest := by
  obtain ⟨c, more, rfl, hc⟩ := h.exists_cons
  rw [List.cons_append, scan_digit _ hc, ← List.cons_append, numberToken,
    hrest.takeWhile_append h.2, hrest.dropWhile_append h.2]
  rfl

theorem scans_decimal {digits : List Char} (h : IsDigits digits) :
    Scans (Stops continuesNumber) digits (integerLexeme (ofDigits 10 0 digits) digits) := by
  refine ⟨by simpa using starts_digits h [], fun rest hrest => ?_⟩
  have hstop : Stops isDigit rest := fun d hd => by
    have hd := hrest d hd
    simp only [continuesNumber, Bool.or_eq_false_iff] at hd
    exact hd.1.1
  rw [scan_digits h hstop, numberBehind.eq_def]
  split
  case h_1 => exact absurd (hrest '#' rfl) (by decide)
  case h_2 => exact absurd (hrest '.' rfl) (by decide)
  case h_3 => rfl

theorem scans_bigText {text : List Char} (h : IsBigText text) :
    Scans Ends text (.bigInteger (String.ofList text)) := by
  cases h with
  | decimal hdigits hlarge =>
    have hlexeme : integerLexeme (ofDigits 10 0 text) text = .bigInteger (String.ofList text) :=
      if_neg hlarge
    rw [← hlexeme]
    exact (scans_decimal hdigits).mono fun rest hrest => hrest.stops (by decide)
  | @radix base digits hbase hne halnum hlow hhigh hdigits hlarge =>
    refine ⟨starts_digits hbase _, fun rest hrest => ?_⟩
    have hstop : Stops (fun c => isLetter c || isDigit c) rest := hrest.stops (by decide)
    have hlexeme : integerLexeme (ofDigits (ofDigits 10 0 base) 0 digits) (base ++ '#' :: digits) =
        .bigInteger (String.ofList (base ++ '#' :: digits)) := if_neg hlarge
    have hvalid : (decide (2 ≤ ofDigits 10 0 base) && decide (ofDigits 10 0 base ≤ 36) &&
        digits.all (isDigitOf (ofDigits 10 0 base))) = true := by
      simpa [hlow, hhigh] using hdigits
    rw [List.append_assoc, List.cons_append, scan_digits hbase (stops_cons (by decide) _),
      numberBehind]
    simp only [radixToken, hstop.takeWhile_append halnum, hvalid, if_true, hlexeme, List.drop_left]
    rw [if_neg (by simpa using hne)]

/-- Exponents, as they are written, are scanned whole. -/
theorem exponentText_of_writesExponent {tail rest : List Char} {e : Int}
    (h : WritesExponent tail e) (hrest : Ends rest) :
    exponentText (tail ++ rest) = (tail, rest) := by
  cases h with
  | none =>
    cases hrest with
    | nil => rfl
    | space => rfl
  | some e =>
    have hdigits := isDigits_naturalChars e.natAbs
    have hsplit : (splitSign (integerChars e ++ rest)).2 = naturalChars e.natAbs ++ rest := by
      obtain ⟨c, more, hcs, hc⟩ := hdigits.exists_cons
      unfold integerChars
      split
      case isTrue => rfl
      case isFalse => rw [hcs, List.cons_append, splitSign_of_isDigit hc]
    have hhead : (naturalChars e.natAbs ++ rest).head?.any isDigit = true := by
      obtain ⟨c, more, hcs, hc⟩ := hdigits.exists_cons
      simp [hcs, hc]
    have hstop : Stops isDigit rest := hrest.stops (by decide)
    rw [List.cons_append, exponentText]
    simp only [hsplit, hhead, hstop.dropWhile_append hdigits.2]
    simp only [decide_true, Bool.true_or, Bool.and_true, if_true]
    rw [show ('e' :: (integerChars e ++ rest)).length - rest.length =
      ('e' :: integerChars e).length by simp; omega, ← List.cons_append, List.take_left]

theorem scans_float {whole part tail : List Char} {e : Int} {value : Float64}
    (hwhole : IsDigits whole) (hpart : IsDigits part) (htail : WritesExponent tail e)
    (hvalue : parse? (whole ++ '.' :: (part ++ tail)) = some value) :
    Scans Ends (whole ++ '.' :: (part ++ tail)) (.float value) := by
  obtain ⟨d, places, rfl, hd⟩ := hpart.exists_cons
  refine ⟨starts_digits hwhole _, fun rest hrest => ?_⟩
  have hstop : Stops isDigit (tail ++ rest) := by
    cases htail with
    | none => exact hrest.stops (by decide)
    | some => exact stops_cons (by decide) _
  have hplaces : d :: (places ++ tail ++ rest) = d :: places ++ (tail ++ rest) := by simp
  rw [List.append_assoc, List.cons_append, scan_digits hwhole (stops_cons (by decide) _),
    List.cons_append, List.cons_append, numberBehind, if_pos hd, hplaces]
  simp only [floatToken,
    hstop.takeWhile_append hpart.2, hstop.dropWhile_append hpart.2,
    exponentText_of_writesExponent htail hrest]
  rw [List.append_assoc, List.cons_append, hvalue]
  rfl

/-! ## Quoted texts -/

/-- The marks that enclose text. -/
def IsQuote (quote : Char) : Prop :=
  quote = '\x27' ∨ quote = '"' ∨ quote = '\x00'

theorem resolve_quote {quote : Char} (h : IsQuote quote) (cs : List Char) :
    Escape.resolve (quote :: cs) = .ok (quote, cs) := by
  rcases h with rfl | rfl | rfl
  · rfl
  · rfl
  · rfl

theorem unescapeWithin_slash {c d : Char} {cs : List Char} (steps : Nat)
    (h : Escape.resolve (d :: cs) = .ok (c, cs)) :
    Escape.unescapeWithin (steps + 1) ('\\' :: d :: cs) =
      (c :: ·) <$> Escape.unescapeWithin steps cs := by
  rw [Escape.unescapeWithin, if_pos rfl, h]
  rfl

theorem unescapeWithin_escaped {quote : Char} (h : IsQuote quote) (c : Char) (steps : Nat)
    (cs : List Char) :
    Escape.unescapeWithin (steps + 1) (Lexeme.escaped quote c ++ cs) =
      (c :: ·) <$> Escape.unescapeWithin steps cs := by
  unfold Lexeme.escaped
  split
  case isTrue hnewline =>
    rw [hnewline]
    exact unescapeWithin_slash steps rfl
  case isFalse =>
    split
    case isTrue htab =>
      rw [htab]
      exact unescapeWithin_slash steps rfl
    case isFalse =>
      split
      case isTrue hself =>
        rw [Bool.or_eq_true, decide_eq_true_eq, decide_eq_true_eq] at hself
        rcases hself with rfl | rfl
        · exact unescapeWithin_slash steps rfl
        · exact unescapeWithin_slash steps (resolve_quote h cs)
      case isFalse hplain =>
        rw [Bool.or_eq_true, decide_eq_true_eq, decide_eq_true_eq, not_or] at hplain
        rw [List.singleton_append, Escape.unescapeWithin, if_neg hplain.1]
        rfl

theorem escaped_ne_nil (quote c : Char) : Lexeme.escaped quote c ≠ [] := by
  unfold Lexeme.escaped
  split_ifs <;> simp

theorem unescapeWithin_flatMap {quote : Char} (h : IsQuote quote) {text : List Char} {steps : Nat}
    (hsteps : text.length ≤ steps) :
    Escape.unescapeWithin steps (text.flatMap (Lexeme.escaped quote)) = .ok text := by
  induction text generalizing steps with
  | nil => exact Escape.unescapeWithin.eq_1 steps
  | cons c text ih =>
    obtain ⟨steps, rfl⟩ : ∃ n, steps = n + 1 := ⟨steps - 1, by simp at hsteps; omega⟩
    rw [List.flatMap_cons, unescapeWithin_escaped h, ih (by simpa using hsteps)]
    rfl

theorem length_le_escaped (quote : Char) (text : List Char) :
    text.length ≤ (text.flatMap (Lexeme.escaped quote)).length := by
  induction text with
  | nil => exact Nat.le_refl _
  | cons c text ih =>
    have hpos := List.length_pos_iff.2 (escaped_ne_nil quote c)
    rw [List.flatMap_cons, List.length_append, List.length_cons]
    omega

theorem unescape_escaped {quote : Char} (h : IsQuote quote) (text : List Char) :
    Escape.unescape (text.flatMap (Lexeme.escaped quote)) = .ok text :=
  unescapeWithin_flatMap h (length_le_escaped quote text)

theorem quotedText_slash {quote c : Char} {cs text : List Char} {rest : Option (List Char)}
    (hc : c ≠ '\n') (h : quotedText quote cs = (text, rest)) :
    quotedText quote ('\\' :: c :: cs) = ('\\' :: c :: text, rest) := by
  rw [quotedText, if_neg hc, h]

theorem quotedText_escaped {quote : Char} (h : IsQuote quote) (c : Char) {cs text : List Char}
    {rest : Option (List Char)} (htext : quotedText quote cs = (text, rest)) :
    quotedText quote (Lexeme.escaped quote c ++ cs) = (Lexeme.escaped quote c ++ text, rest) := by
  have hquote : quote ≠ '\n' := by rcases h with rfl | rfl | rfl <;> decide
  unfold Lexeme.escaped
  split
  case isTrue => exact quotedText_slash (by decide) htext
  case isFalse =>
    split
    case isTrue => exact quotedText_slash (by decide) htext
    case isFalse =>
      split
      case isTrue hself =>
        rw [Bool.or_eq_true, decide_eq_true_eq, decide_eq_true_eq] at hself
        rcases hself with rfl | rfl
        · exact quotedText_slash (by decide) htext
        · exact quotedText_slash hquote htext
      case isFalse hplain =>
        rw [Bool.or_eq_true, decide_eq_true_eq, decide_eq_true_eq, not_or] at hplain
        rw [List.singleton_append, quotedText.eq_2, if_neg hplain.2, if_neg hplain.1, htext]
        · rfl
        · rintro - - rfl
          exact absurd rfl hplain.1

theorem quotedText_flatMap {quote : Char} (h : IsQuote quote) (text rest : List Char) :
    quotedText quote (text.flatMap (Lexeme.escaped quote) ++ quote :: rest) =
      (text.flatMap (Lexeme.escaped quote), some rest) := by
  induction text with
  | nil => rcases h with rfl | rfl | rfl <;> rfl
  | cons c text ih =>
    rw [List.flatMap_cons, List.append_assoc]
    exact quotedText_escaped h c ih

theorem quotedToken_enclosed {quote : Char} (h : IsQuote quote) (lexeme : String → Lexeme)
    (text : String) (rest : List Char) :
    quotedToken quote lexeme (text.toList.flatMap (Lexeme.escaped quote) ++ quote :: rest) =
      .ok ⟨lexeme text, Lexeme.enclosed quote text, rest⟩ := by
  rw [quotedToken, quotedText_flatMap h]
  simp only [unescape_escaped h, bind, Except.bind, String.ofList_toList]
  rfl

theorem scans_atom (name : String) :
    Scans (fun _ => True) (Lexeme.enclosed '\x27' name) (.atom name) := by
  refine ⟨⟨_, _, rfl, by decide, by decide⟩, fun rest _ => ?_⟩
  have hscan : ∀ cs, scan ('\x27' :: cs) = quotedToken '\x27' .atom cs := fun _ => rfl
  rw [Lexeme.enclosed, List.cons_append, List.cons_append, List.append_assoc, hscan,
    List.singleton_append, quotedToken_enclosed (.inl rfl), Lexeme.enclosed, List.cons_append]

theorem scans_string (text : String) :
    Scans (fun _ => True) (Lexeme.enclosed '"' text) (.string text) := by
  refine ⟨⟨_, _, rfl, by decide, by decide⟩, fun rest _ => ?_⟩
  have hscan : ∀ cs, scan ('"' :: cs) = quotedToken '"' .string cs := fun _ => rfl
  rw [Lexeme.enclosed, List.cons_append, List.cons_append, List.append_assoc, hscan,
    List.singleton_append, quotedToken_enclosed (.inr (.inl rfl)), Lexeme.enclosed,
    List.cons_append]

theorem characterText_escaped (value : Char) (rest : List Char) :
    characterText (Lexeme.escaped '\x00' value ++ rest) =
      .ok (Lexeme.escaped '\x00' value, rest) := by
  unfold Lexeme.escaped
  split
  case isTrue => rfl
  case isFalse =>
    split
    case isTrue => rfl
    case isFalse =>
      split
      case isTrue hself =>
        rw [Bool.or_eq_true, decide_eq_true_eq, decide_eq_true_eq] at hself
        rcases hself with rfl | rfl
        · rfl
        · rfl
      case isFalse hplain =>
        rw [Bool.or_eq_true, decide_eq_true_eq, decide_eq_true_eq, not_or] at hplain
        rw [List.singleton_append, characterText.eq_4]
        · rintro c cs rfl
          exact absurd rfl hplain.1
        · rintro rfl
          exact absurd rfl hplain.1

theorem scans_char (value : Char) :
    Scans (fun _ => True) ('$' :: Lexeme.escaped '\x00' value) (.char value) := by
  refine ⟨⟨_, _, rfl, by decide, by decide⟩, fun rest _ => ?_⟩
  have hscan : scan ('$' :: (Lexeme.escaped '\x00' value ++ rest)) =
      characterToken (Lexeme.escaped '\x00' value ++ rest) := rfl
  have hvalue := unescape_escaped (.inr (.inr rfl) : IsQuote '\x00') [value]
  rw [List.flatMap_singleton] at hvalue
  rw [List.cons_append, hscan, characterToken, characterText_escaped]
  simp only [hvalue]
  rfl

/-! ## Marks -/

/-- A character that starts a mark. -/
def startsMark (c : Char) : Bool :=
  !(Lexeme.isLower c || startsVariable c || isDigit c || c = '\x27' || c = '"' || c = '$' ||
    isGap c || c = '%')

theorem mem_all (mark : Punct) : mark ∈ Punct.all := by
  cases mark <;> decide

theorem punctAt?_text (mark : Punct) : punctAt? mark.text.toList = some mark := by
  have hall : ∀ mark ∈ Punct.all, punctAt? mark.text.toList = some mark := by decide +kernel
  exact hall mark (mem_all mark)

/-- A character that a mark holds. -/
def inMark (c : Char) : Bool :=
  Punct.all.any (·.text.toList.contains c)

theorem inMark_of_mem {mark : Punct} {c : Char} (h : c ∈ mark.text.toList) : inMark c = true :=
  List.any_eq_true.2 ⟨mark, mem_all mark, by simpa using h⟩

theorem inMark_of_isDigit {c : Char} (h : isDigit c = true) : inMark c = false := by
  have hall : ∀ mark ∈ Punct.all, mark.text.toList.any isDigit = false := by decide +kernel
  refine List.any_eq_false.2 fun mark hmark hmem => ?_
  exact List.any_eq_false.1 (hall mark hmark) c (by simpa using hmem) h

theorem exists_startsMark (mark : Punct) :
    ∃ c cs, mark.text.toList = c :: cs ∧ startsMark c = true := by
  have hall : ∀ mark ∈ Punct.all, mark.text.toList.head?.any startsMark = true := by decide +kernel
  have hmark := hall mark (mem_all mark)
  cases htext : mark.text.toList with
  | nil =>
    rw [htext] at hmark
    cases hmark
  | cons c cs =>
    rw [htext] at hmark
    exact ⟨c, cs, rfl, hmark⟩

theorem isPrefixOf_append_stops {cs text rest : List Char} (hcs : ∀ c ∈ cs, inMark c = true)
    (hrest : Stops inMark rest) : cs.isPrefixOf (text ++ rest) = cs.isPrefixOf text := by
  induction cs generalizing text with
  | nil => rfl
  | cons c cs ih =>
    obtain ⟨hc, hcs⟩ := List.forall_mem_cons.1 hcs
    cases text with
    | nil =>
      cases rest with
      | nil => rfl
      | cons d rest =>
        have hne : (c == d) = false := by
          refine beq_eq_false_iff_ne.2 fun heq => ?_
          rw [heq, hrest d rfl] at hc
          cases hc
        simp [List.isPrefixOf, hne]
    | cons d text => simp only [List.cons_append, List.isPrefixOf, ih hcs]

/-- A mark ends before a character that no mark holds. -/
theorem punctAt?_append_stops {text rest : List Char} (hrest : Stops inMark rest) :
    punctAt? (text ++ rest) = punctAt? text := by
  unfold punctAt?
  congr 1
  funext mark
  exact isPrefixOf_append_stops (fun _ => inMark_of_mem) hrest

theorem endsDeclaration_of_ends {rest : List Char} (h : Ends rest) :
    endsDeclaration rest = true := by
  cases h with
  | nil => rfl
  | space => rfl

theorem starts_startsMark {c : Char} {cs : List Char} (hc : startsMark c = true) :
    Starts (c :: cs) :=
  starts_of startsMark hc (by decide)

theorem scan_startsMark {c : Char} {cs : List Char} (hc : startsMark c = true) :
    scan (c :: cs) = punctToken (c :: cs) := by
  simp only [startsMark, startsVariable, Bool.not_eq_true', Bool.or_eq_false_iff] at hc
  obtain ⟨⟨⟨⟨⟨⟨⟨hlower, hvariable⟩, hdigit⟩, hquote⟩, hdouble⟩, hdollar⟩, -⟩, -⟩ := hc
  simp_all [scan]

theorem scans_punct {mark : Punct} (h : mark ≠ .period) :
    Scans (Stops inMark) mark.text.toList (.punct mark) := by
  obtain ⟨c, cs, htext, hc⟩ := exists_startsMark mark
  refine ⟨htext ▸ starts_startsMark hc, fun rest hrest => ?_⟩
  have hscan : scan (mark.text.toList ++ rest) = punctToken (mark.text.toList ++ rest) := by
    rw [htext]
    exact scan_startsMark hc
  rw [hscan, punctToken, punctAt?_append_stops hrest, punctAt?_text]
  split
  case h_1 heq =>
    cases heq
    exact absurd rfl h
  case h_2 mark' _ heq =>
    cases heq
    simp only [List.drop_left]
  case h_3 heq => cases heq

/-- A point before a space ends a declaration, whatever it was printed for. -/
theorem scans_point : Scans Ends ['.'] .dot := by
  refine ⟨⟨_, _, rfl, by decide, by decide⟩, fun rest hrest => ?_⟩
  have hscan : scan (['.'] ++ rest) = punctToken (['.'] ++ rest) := rfl
  have hmark : punctAt? ['.'] = some .period := by decide +kernel
  rw [hscan, punctToken, punctAt?_append_stops (hrest.stops (by decide +kernel)), hmark]
  simp [endsDeclaration_of_ends hrest]

end Lexer

end HeaderForms
