-- SUMMARY: Texts that differ in how a symbol is spelt are read in step with one another.
import HeaderForms.Proofs.Form.Reading

/-!
# Spelling

A reader tells forms by their first characters, and no character within a longer symbol is one of
these. So two texts that differ only in how such symbols are spelt are read in step: forms are
sought at the same places and leave as much text behind them, whatever values they have.
-/

namespace HeaderForms.Reader

/-! ## Words -/

/-- The symbol characters, besides digits, that a mark or a number may start with. -/
def markings : List Char :=
  ['#', '@', '.', '+', '-']

/-- A character that stands first in symbols only: a letter of any script, or a mark such as
`*`. -/
def beginsSymbol (c : Char) : Bool :=
  isSymbolChar c && !Text.isBlank c && !Numeral.isDigit c && !markings.contains c

/-- A symbol of more than one character, so that the mark `#B(` holds none. -/
structure IsWord (word : List Char) : Prop where
  begins : word.head?.any beginsSymbol = true
  symbolChars : word.all isSymbolChar = true
  long : 1 < word.length

section

variable {c : Char}

theorem isSymbolChar_of_beginsSymbol (h : beginsSymbol c = true) : isSymbolChar c = true := by
  simp only [beginsSymbol, Bool.and_eq_true] at h
  exact h.1.1.1

theorem beginsSymbol_of_isLetter (h : Numeral.isLetter c = true) : beginsSymbol c = true := by
  have hsymbol := isSymbolChar_of (p := Numeral.isLetter) rfl h
  have hnone : markings.any Numeral.isLetter = false := rfl
  have hmarking : c ∉ markings := fun hmem => List.any_eq_false.1 hnone c hmem h
  have hcode : (97 ≤ c.toNat ∧ c.toNat ≤ 122) ∨ (65 ≤ c.toNat ∧ c.toNat ≤ 90) := by
    simpa [Numeral.isLetter, Char.le_def, UInt32.le_iff_toNat_le] using h
  have hblank : Text.isBlank c = false := by
    simp only [Text.isBlank, Bool.or_eq_false_iff, Bool.and_eq_false_iff, decide_eq_false_iff_not,
      beq_eq_false_iff_ne]
    omega
  have hdigit : Numeral.isDigit c = false := by
    simp only [Numeral.isDigit, Char.le_def, UInt32.le_iff_toNat_le, Bool.and_eq_false_iff,
      decide_eq_false_iff_not]
    change ¬ 48 ≤ c.toNat ∨ ¬ c.toNat ≤ 57
    omega
  simp only [beginsSymbol, hsymbol, hblank, hdigit, List.contains_eq_mem, hmarking, decide_false,
    Bool.not_false, Bool.and_self]

theorem not_isBlank_of_beginsSymbol (h : beginsSymbol c = true) : Text.isBlank c = false := by
  simp only [beginsSymbol, Bool.and_eq_true, Bool.not_eq_true'] at h
  exact h.1.1.2

theorem not_isDigit_of_beginsSymbol (h : beginsSymbol c = true) : Numeral.isDigit c = false := by
  simp only [beginsSymbol, Bool.and_eq_true, Bool.not_eq_true'] at h
  exact h.1.2

theorem not_isSymbolChar_of_isSpace (h : isSpace c = true) : isSymbolChar c = false := by
  rw [isSymbolChar, h]
  rfl

end

theorem isWord_of_letter {run : List Char} (hletter : run.head?.any Numeral.isLetter = true)
    (hsymbols : run.all isSymbolChar = true) (hlong : 1 < run.length) : IsWord run := by
  obtain ⟨c, hhead, hc⟩ := (Option.any_eq_true Numeral.isLetter run.head?).1 hletter
  exact ⟨by rw [hhead]; exact beginsSymbol_of_isLetter hc, hsymbols, hlong⟩

theorem IsWord.replace {stem tail : List Char} {c d : Char} (h : IsWord (stem ++ c :: tail))
    (hd : beginsSymbol d = true) : IsWord (stem ++ d :: tail) := by
  have hbegins := h.begins
  have hsymbols := h.symbolChars
  have hlong := h.long
  refine ⟨?_, ?_, ?_⟩
  · cases stem with
    | nil => exact hd
    | cons => exact hbegins
  · rw [List.all_append, List.all_cons] at hsymbols ⊢
    simp only [Bool.and_eq_true] at hsymbols ⊢
    exact ⟨hsymbols.1, isSymbolChar_of_beginsSymbol hd, hsymbols.2.2⟩
  · simpa using hlong

/-! ## Texts in step -/

/-- Where in a text a place is: between two words, or behind the first characters of one. -/
inductive Place where
  | between
  | inside

/-- The texts behind a place are the same but for the spelling of some words. A word begins with two
characters, so that it is told from the letter of a mark. -/
inductive Respelled : Place → List Char → List Char → Prop where
  | nil : Respelled .between [] []
  | char (c : Char) {cs ds : List Char} :
      Respelled .between cs ds → Respelled .between (c :: cs) (c :: ds)
  | word {c c' d d' : Char} {cs ds : List Char} :
      beginsSymbol c = true → beginsSymbol d = true →
      isSymbolChar c' = true → isSymbolChar d' = true →
      Respelled .inside cs ds → Respelled .between (c :: c' :: cs) (d :: d' :: ds)
  | symbol {c d : Char} {cs ds : List Char} :
      isSymbolChar c = true → isSymbolChar d = true →
      Respelled .inside cs ds → Respelled .inside (c :: cs) (d :: ds)
  | leave {cs ds : List Char} : Respelled .between cs ds → Respelled .inside cs ds

/-- No word begins in these characters when they stand at the front of a text. -/
def isWordless : List Char → Bool
  | [] => true
  | c :: cs => (!beginsSymbol c || cs.head?.any (!isSymbolChar ·)) && isWordless cs

namespace Respelled

variable {place : Place} {c d : Char} {cs ds : List Char}

theorem refl (cs : List Char) : Respelled .between cs cs := by
  induction cs with
  | nil => exact .nil
  | cons c cs ih => exact .char c ih

theorem symm (h : Respelled place cs ds) : Respelled place ds cs := by
  induction h with
  | nil => exact .nil
  | char c _ ih => exact .char c ih
  | word hc hd hc' hd' _ ih => exact .word hd hc hd' hc' ih
  | symbol hc hd _ ih => exact .symbol hd hc ih
  | leave _ ih => exact .leave ih

theorem length_eq (h : Respelled place cs ds) : cs.length = ds.length := by
  induction h with
  | nil => rfl
  | char _ _ ih => exact congrArg (· + 1) ih
  | word _ _ _ _ _ ih => exact congrArg (· + 2) ih
  | symbol _ _ _ ih => exact congrArg (· + 1) ih
  | leave _ ih => exact ih

theorem eq_nil (h : Respelled place [] ds) : ds = [] :=
  List.length_eq_zero_iff.1 h.length_eq.symm

theorem append (before : List Char) (h : Respelled .between cs ds) :
    Respelled .between (before ++ cs) (before ++ ds) := by
  induction before with
  | nil => exact h
  | cons c before ih => exact .char c ih

theorem append_inside {word other : List Char} (hword : word.all isSymbolChar = true)
    (hother : other.all isSymbolChar = true) (hlength : other.length = word.length)
    (h : Respelled .inside cs ds) : Respelled .inside (word ++ cs) (other ++ ds) := by
  induction word generalizing other with
  | nil =>
    rw [List.length_eq_zero_iff.1 hlength]
    exact h
  | cons c word ih =>
    obtain ⟨d, other, rfl⟩ := List.exists_cons_of_length_eq_add_one hlength
    rw [List.all_cons, Bool.and_eq_true] at hword hother
    exact .symbol hword.1 hother.1 (ih hword.2 hother.2 (Nat.succ.inj hlength))

/-- A word in place of another of its length. -/
theorem append_word {word other : List Char} (hword : IsWord word) (hother : IsWord other)
    (hlength : other.length = word.length) (after : List Char) :
    Respelled .between (word ++ after) (other ++ after) := by
  have hinside := (refl after).leave
  match word, other, hword, hother with
  | c :: c' :: word, d :: d' :: other, hword, hother =>
    have hsymbols := hword.symbolChars
    have hsymbols' := hother.symbolChars
    simp only [List.all_cons, Bool.and_eq_true] at hsymbols hsymbols'
    exact .word hword.begins hother.begins hsymbols.2.1 hsymbols'.2.1
      (append_inside hsymbols.2.2 hsymbols'.2.2 (by simpa using hlength) hinside)
  | [], _, hword, _ => exact absurd hword.long (by decide)
  | [_], _, hword, _ => exact absurd hword.long (by simp)
  | _, [], _, hother => exact absurd hother.long (by decide)
  | _, [_], _, hother => exact absurd hother.long (by simp)

theorem inside (h : Respelled place cs ds) : Respelled .inside cs ds := by
  cases place with
  | between => exact .leave h
  | inside => exact h

theorem uncons (h : Respelled place (c :: cs) ds) :
    ∃ d ds', ds = d :: ds' ∧ Respelled .inside cs ds' := by
  generalize heq : c :: cs = cs' at h
  induction h with
  | nil => cases heq
  | char _ h =>
    cases heq
    exact ⟨_, _, rfl, .leave h⟩
  | word _ _ hc' hd' h =>
    cases heq
    exact ⟨_, _, rfl, .symbol hc' hd' h⟩
  | symbol _ _ h =>
    cases heq
    exact ⟨_, _, rfl, h⟩
  | leave _ ih => exact ih heq

/-- A character that symbols do not have is in both texts, and ends any word before it. -/
theorem mark (hc : isSymbolChar c = false) (h : Respelled place (c :: cs) ds) :
    ∃ ds', ds = c :: ds' ∧ Respelled .between cs ds' := by
  generalize heq : c :: cs = cs' at h
  induction h with
  | nil => cases heq
  | char _ h =>
    cases heq
    exact ⟨_, rfl, h⟩
  | word hbegins =>
    cases heq
    rw [isSymbolChar_of_beginsSymbol hbegins] at hc
    cases hc
  | symbol hsymbol =>
    cases heq
    rw [hsymbol] at hc
    cases hc
  | leave _ ih => exact ih heq

theorem ne_mark {x : Char} (hx : isSymbolChar x = false) (hc : c ≠ x)
    (h : Respelled place (c :: cs) (d :: ds)) : d ≠ x := by
  rintro rfl
  obtain ⟨cs', heq, -⟩ := h.symm.mark hx
  exact hc (List.cons.inj heq).1

theorem wordless (mark : List Char) (hmark : isWordless mark = true)
    (h : Respelled .between (mark ++ cs) ds) :
    ∃ ds', ds = mark ++ ds' ∧ Respelled .between cs ds' := by
  induction mark generalizing ds with
  | nil => exact ⟨ds, rfl, h⟩
  | cons c mark ih =>
    simp only [isWordless, Bool.and_eq_true, Bool.or_eq_true, Bool.not_eq_true'] at hmark
    generalize heq : c :: mark ++ cs = cs' at h
    cases h with
    | nil => cases heq
    | char _ h =>
      cases heq
      obtain ⟨ds', rfl, h'⟩ := ih hmark.2 h
      exact ⟨ds', rfl, h'⟩
    | @word c₁ c' _ d' cs₁ _ hc _ hc' =>
      -- The first two characters of a word cannot be those of the mark.
      exfalso
      cases mark with
      | nil =>
        cases heq
        simp [hc] at hmark
      | cons c₂ mark =>
        cases heq
        simp [hc, hc'] at hmark

/-- Characters with which no word begins stand at the front of both texts or of neither. -/
theorem not_wordless (mark : List Char) (hmark : isWordless mark = true)
    (h : Respelled .between cs ds) (hcs : ∀ cs', cs = mark ++ cs' → False) :
    ∀ ds', ds = mark ++ ds' → False := by
  rintro ds' rfl
  obtain ⟨cs', heq, -⟩ := h.symm.wordless mark hmark
  exact hcs cs' heq

/-! ## Blanks -/

theorem not_blockStart (h : Respelled .between (c :: cs) (d :: ds))
    (hcs : ∀ cs', c = '#' → cs = '|' :: cs' → False) :
    ∀ ds', d = '#' → ds = '|' :: ds' → False := by
  rintro ds' rfl rfl
  obtain ⟨cs', heq, -⟩ := h.symm.wordless ['#', '|'] rfl
  cases heq
  exact hcs cs' rfl rfl

theorem blockEnd (h : Respelled place ('|' :: '#' :: cs) ds) :
    ∃ ds', ds = '|' :: '#' :: ds' ∧ Respelled .between cs ds' := by
  obtain ⟨ds', rfl, h'⟩ := h.mark rfl
  obtain ⟨ds'', rfl, h''⟩ := h'.wordless ['#'] rfl
  exact ⟨ds'', rfl, h''⟩

theorem not_blockEnd (h : Respelled place (c :: cs) (d :: ds))
    (hcs : ∀ cs', c = '|' → cs = '#' :: cs' → False) :
    ∀ ds', d = '|' → ds = '#' :: ds' → False := by
  rintro ds' rfl rfl
  obtain ⟨cs', heq, -⟩ := h.symm.blockEnd
  cases heq
  exact hcs cs' rfl rfl

theorem closesBlock_eq (h : Respelled place cs ds) : closesBlock ds = closesBlock cs := by
  fun_induction closesBlock cs generalizing place ds with
  | case1 cs =>
    obtain ⟨ds', rfl, -⟩ := h.blockEnd
    rfl
  | case2 c cs hopen ih =>
    obtain ⟨d, ds', rfl, h'⟩ := h.uncons
    rw [closesBlock.eq_2 d ds' (h.not_blockEnd hopen), ih h']
  | case3 =>
    rw [h.eq_nil]
    rfl

end Respelled

/-- Between forms a reader stands between words, and may be inside one in a comment. -/
def Gap.place : Gap → Place
  | .space => .between
  | .lineComment | .blockComment => .inside

namespace Respelled

variable {place : Place} {c d : Char} {cs ds : List Char}

theorem skipGap (gap : Gap) (h : Respelled gap.place cs ds) :
    Respelled .between (skipGap gap cs) (skipGap gap ds) := by
  fun_induction Reader.skipGap gap cs generalizing ds with
  | case1 cs hcloses ih =>
    obtain ⟨ds', rfl, h'⟩ := h.wordless ['#', '|'] rfl
    rw [List.cons_append, List.cons_append, List.nil_append, skipGap.eq_1, h'.closesBlock_eq,
      if_pos hcloses]
    exact ih h'.inside
  | case2 cs hcloses =>
    obtain ⟨ds', rfl, h'⟩ := h.wordless ['#', '|'] rfl
    rw [List.cons_append, List.cons_append, List.nil_append, skipGap.eq_1, h'.closesBlock_eq,
      if_neg hcloses]
    exact h
  | case3 c cs hopen hspace ih =>
    obtain ⟨ds', rfl, h'⟩ := h.mark (not_isSymbolChar_of_isSpace hspace)
    rw [skipGap.eq_2 c ds' (h.not_blockStart hopen), if_pos hspace]
    exact ih h'
  | case4 cs hopen hspace ih =>
    obtain ⟨ds', rfl, h'⟩ := h.mark rfl
    rw [skipGap.eq_2 ';' ds' (h.not_blockStart hopen), if_neg hspace, if_pos rfl]
    exact ih h'.inside
  | case5 c cs hopen hspace hcomment =>
    obtain ⟨d, ds', rfl, -⟩ := h.uncons
    have hspace' : ¬ isSpace d = true := by
      intro hd
      obtain ⟨_, heq, -⟩ := h.symm.mark (not_isSymbolChar_of_isSpace hd)
      cases heq
      exact hspace hd
    rw [skipGap.eq_2 d ds' (h.not_blockStart hopen), if_neg hspace',
      if_neg (h.ne_mark rfl hcomment)]
    exact h
  | case6 c cs ih =>
    obtain ⟨d, ds', rfl, h'⟩ := h.uncons
    rw [skipGap.eq_3]
    by_cases hline : c = '\n'
    · subst hline
      obtain ⟨_, heq, hbetween⟩ := h.mark rfl
      cases heq
      exact ih hbetween
    · rw [if_neg hline] at ih ⊢
      rw [if_neg (h.ne_mark rfl hline)]
      exact ih h'
  | case7 cs ih =>
    obtain ⟨ds', rfl, h'⟩ := h.blockEnd
    rw [skipGap.eq_4]
    exact ih h'
  | case8 c cs hopen ih =>
    obtain ⟨d, ds', rfl, h'⟩ := h.uncons
    rw [skipGap.eq_5 d ds' (h.not_blockEnd hopen)]
    exact ih h'
  | case9 gap =>
    rw [h.eq_nil]
    cases gap <;> exact .nil

theorem skipBlanks (h : Respelled .between cs ds) :
    Respelled .between (skipBlanks cs) (skipBlanks ds) :=
  skipGap .space h

/-! ## Runs -/

theorem dropWhile (h : Respelled place cs ds) :
    Respelled .between (cs.dropWhile isSymbolChar) (ds.dropWhile isSymbolChar) := by
  induction h with
  | nil => exact .nil
  | @char c cs ds h ih =>
    cases hc : isSymbolChar c with
    | true => simpa only [List.dropWhile_cons_of_pos hc] using ih
    | false => simpa [hc] using .char c h
  | word hc hd hc' hd' _ ih =>
    simpa [isSymbolChar_of_beginsSymbol hc, isSymbolChar_of_beginsSymbol hd, hc', hd'] using ih
  | symbol hc hd _ ih => simpa [hc, hd] using ih
  | leave _ ih => exact ih

/-- The runs of symbol characters at the front are the same, or both hold the first character of a
word. -/
theorem takeWhile (h : Respelled .between cs ds) :
    ds.takeWhile isSymbolChar = cs.takeWhile isSymbolChar ∨
      (∃ c ∈ cs.takeWhile isSymbolChar, beginsSymbol c = true) ∧
        ∃ d ∈ ds.takeWhile isSymbolChar, beginsSymbol d = true := by
  generalize hplace : Place.between = place at h
  induction h with
  | nil => exact .inl rfl
  | @char c cs ds h ih =>
    cases hc : isSymbolChar c with
    | true =>
      rw [List.takeWhile_cons_of_pos hc, List.takeWhile_cons_of_pos hc]
      refine (ih rfl).imp (congrArg (c :: ·)) ?_
      rintro ⟨⟨c', hmem, hc'⟩, d', hmem', hd'⟩
      exact ⟨⟨c', .tail c hmem, hc'⟩, d', .tail c hmem', hd'⟩
    | false => simp [hc]
  | word hc hd =>
    rw [List.takeWhile_cons_of_pos (isSymbolChar_of_beginsSymbol hc),
      List.takeWhile_cons_of_pos (isSymbolChar_of_beginsSymbol hd)]
    exact .inr ⟨⟨_, .head _, hc⟩, _, .head _, hd⟩
  | symbol => cases hplace
  | leave => cases hplace

end Respelled

/-! ## Attempts -/

/-- Two attempts on texts in step. Both found something or neither did, and forms were sought up to
the same place. -/
inductive Alike {α : Type} : Attempt α → Attempt α → Prop where
  | none (far : Nat) : Alike (none, far) (none, far)
  | some (first second : α) (far : Nat) {cs ds : List Char} :
      Respelled .between cs ds → Alike (some (first, cs), far) (some (second, ds), far)

/-- What is sought is found in both of two texts in step, or in neither. -/
def IgnoresSpelling {α : Type} (item : Seeker α) : Prop :=
  ∀ (far : Nat) {cs ds : List Char}, Respelled .between cs ds → Alike (item far cs) (item far ds)

section

variable {α β : Type} {far : Nat}

theorem Alike.map {found found' : Option (α × List Char)} {f g : α × List Char → β × List Char}
    (hf : ∀ pair, (f pair).2 = pair.2) (hg : ∀ pair, (g pair).2 = pair.2)
    (h : Alike (found, far) (found', far)) : Alike (found.map f, far) (found'.map g, far) := by
  cases h with
  | none => exact .none far
  | @some a b _ cs ds h =>
    have hbehind : Respelled .between (f (a, cs)).2 (g (b, ds)).2 := by
      rw [hf, hg]
      exact h
    exact .some (f (a, cs)).1 (g (b, ds)).1 far hbehind

theorem Alike.orElse {first first' : Attempt α} {second second' : Nat → Attempt α}
    (h : Alike first first') (hsecond : ∀ far, Alike (second far) (second' far)) :
    Alike (orElse first second) (orElse first' second') := by
  cases h with
  | none far => exact hsecond far
  | some a b far h => exact .some a b far h

end

/-! ## Atoms -/

section

variable {c : Char} {run : List Char}

theorem not_isIntegerText_of_begins (hmem : c ∈ run) (hc : beginsSymbol c = true) :
    ¬ isIntegerText run = true := by
  have hdigit := not_isDigit_of_beginsSymbol hc
  have hbehind {sign : Char} {behind : List Char} (hsign : beginsSymbol sign = false)
      (hmem : c ∈ sign :: behind) : c ∈ behind := by
    refine (List.mem_cons.1 hmem).resolve_left ?_
    rintro rfl
    exact Bool.false_ne_true (hsign.symm.trans hc)
  have hmem' : c ∈ unsigned run := by
    unfold unsigned Numeral.splitSign
    split
    case h_1 cs => exact hbehind rfl hmem
    case h_2 cs => exact hbehind rfl hmem
    case h_3 => exact hmem
  intro hinteger
  rw [isIntegerText, isDigits, Bool.and_eq_true, List.all_eq_true] at hinteger
  exact Bool.false_ne_true (hdigit.symm.trans (hinteger.2 c hmem'))

/-- No atom has such a run. -/
def IsNoAtom (run : List Char) : Prop :=
  run = [] ∨ run = ['.']

theorem not_isNoAtom_of_begins (hmem : c ∈ run) (hc : beginsSymbol c = true) : ¬ IsNoAtom run := by
  rintro (rfl | rfl)
  · cases hmem
  · rw [List.mem_singleton.1 hmem] at hc
    cases hc

end

/-- No run with the first character of a word has the property, so the runs at the front of both
texts have it or neither has. -/
theorem Respelled.run_iff {p : List Char → Prop} {cs ds : List Char}
    (hp : ∀ {run : List Char} {c : Char}, c ∈ run → beginsSymbol c = true → ¬ p run)
    (h : Respelled .between cs ds) :
    p (ds.takeWhile isSymbolChar) ↔ p (cs.takeWhile isSymbolChar) := by
  rcases h.takeWhile with heq | ⟨⟨c, hmem, hc⟩, d, hmem', hd⟩
  · rw [heq]
  · exact iff_of_false (hp hmem' hd) (hp hmem hc)

theorem atom?_eq_none {cs : List Char} (h : IsNoAtom (cs.takeWhile isSymbolChar)) :
    atom? cs = none := by
  rcases h with h | h <;> simp [atom?, h]

theorem atom?_eq_some {cs : List Char} (h : ¬ IsNoAtom (cs.takeWhile isSymbolChar)) :
    ∃ found, atom? cs = some (found, cs.dropWhile isSymbolChar) := by
  have hrun : ¬ ((cs.takeWhile isSymbolChar).isEmpty ||
      cs.takeWhile isSymbolChar = ['.']) = true := by
    simpa [IsNoAtom] using h
  rw [atom?, if_neg hrun]
  split_ifs <;> exact ⟨_, rfl⟩

theorem Respelled.atom? {cs ds : List Char} (far : Nat) (h : Respelled .between cs ds) :
    Alike (atom? cs, far) (atom? ds, far) := by
  have hnone := h.run_iff not_isNoAtom_of_begins
  by_cases hrun : IsNoAtom (cs.takeWhile isSymbolChar)
  · rw [atom?_eq_none hrun, atom?_eq_none (hnone.2 hrun)]
    exact .none far
  · obtain ⟨first, hfirst⟩ := atom?_eq_some hrun
    obtain ⟨second, hsecond⟩ := atom?_eq_some (mt hnone.1 hrun)
    rw [hfirst, hsecond]
    exact .some first second far h.dropWhile

theorem ignoresSpelling_byteLiteral : IgnoresSpelling byteLiteral := by
  intro far cs ds h
  have hinteger := h.run_iff (p := (isIntegerText · = true)) not_isIntegerText_of_begins
  simp only [byteLiteral, hinteger, h.length_eq]
  split
  case isTrue => exact .some _ _ _ h.dropWhile
  case isFalse => exact .none _

/-! ## Enclosed texts -/

theorem Respelled.enclosed? {place : Place} {close : Char} {cs ds : List Char} (far : Nat)
    (hclose : isSymbolChar close = false) (hslash : close ≠ '\\') (h : Respelled place cs ds) :
    Alike (enclosed? close cs, far) (enclosed? close ds, far) := by
  fun_induction Reader.enclosed? close cs generalizing place ds with
  | case1 c cs ih =>
    obtain ⟨ds', rfl, h'⟩ := h.mark rfl
    obtain ⟨d, ds'', rfl, h''⟩ := h'.uncons
    rw [enclosed?_escape]
    exact (ih h'').map (fun _ => rfl) (fun _ => rfl)
  | case2 cs hopen =>
    obtain ⟨ds', rfl, h'⟩ := h.mark hclose
    rw [enclosed?_close hslash]
    exact .some _ _ far h'
  | case3 cs hopen hne =>
    -- Nothing follows the backslash.
    have hnil : cs = [] := by
      cases cs with
      | nil => rfl
      | cons c cs => exact (hopen c cs rfl rfl).elim
    subst hnil
    obtain ⟨ds', rfl, h'⟩ := h.mark rfl
    have hnone : Reader.enclosed? close ['\\'] = none := by simp [Reader.enclosed?, hne]
    rw [h'.eq_nil, hnone]
    exact .none far
  | case4 c cs hopen hne hc ih =>
    obtain ⟨d, ds', rfl, h'⟩ := h.uncons
    rw [enclosed?_cons (h.ne_mark hclose hne) (h.ne_mark rfl hc)]
    exact (ih h').map (fun _ => rfl) (fun _ => rfl)
  | case5 =>
    rw [h.eq_nil]
    exact .none far

theorem Respelled.stringDatum {cs ds : List Char} (far : Nat) (h : Respelled .between cs ds) :
    Alike (stringDatum cs, far) (stringDatum ds, far) :=
  (h.enclosed? far rfl (by decide)).map (fun _ => rfl) fun _ => rfl

theorem Respelled.barSymbol {cs ds : List Char} (far : Nat) (h : Respelled .between cs ds) :
    Alike (barSymbol cs, far) (barSymbol ds, far) :=
  (h.enclosed? far rfl (by decide)).map (fun _ => rfl) fun _ => rfl

/-! ## Compound forms -/

theorem Respelled.expect {α : Type} {close : Char} {cs ds : List Char} (first second : α)
    (far : Nat) (hclose : isSymbolChar close = false) (h : Respelled .between cs ds) :
    Alike (expect close first cs, far) (expect close second ds, far) := by
  have hskip := h.skipBlanks
  unfold Reader.expect
  cases hcs : Reader.skipBlanks cs with
  | nil =>
    rw [hcs] at hskip
    rw [hskip.eq_nil]
    exact .none far
  | cons c cs' =>
    rw [hcs] at hskip
    obtain ⟨d, ds', hds, -⟩ := hskip.uncons
    rw [hds] at hskip ⊢
    by_cases hc : c = close
    · subst hc
      obtain ⟨_, heq, hrest⟩ := hskip.mark hclose
      cases heq
      simpa using .some first second far hrest
    · simpa [hc, hskip.ne_mark hclose hc] using .none far

section

variable {α : Type} {item : Seeker α}

theorem IgnoresSpelling.many {cs ds : List Char} (hitem : IgnoresSpelling item) (count far : Nat)
    (h : Respelled .between cs ds) :
    Respelled .between (many item count far cs).1.2 (many item count far ds).1.2 ∧
      (many item count far ds).2 = (many item count far cs).2 := by
  induction count generalizing far cs ds with
  | zero => exact ⟨h, rfl⟩
  | succ count ih =>
    have hfirst := hitem far h.skipBlanks
    rw [Reader.many, Reader.many]
    generalize item far (skipBlanks cs) = found at hfirst ⊢
    generalize item far (skipBlanks ds) = found' at hfirst ⊢
    cases hfirst with
    | none far => exact ⟨h, rfl⟩
    | some first second far hrest => exact ih far hrest

theorem IgnoresSpelling.closed (hitem : IgnoresSpelling item) (build : List α → Datum) :
    IgnoresSpelling fun far cs =>
      let items := Reader.many item (cs.length + 1) far cs
      (expect ')' (build items.1.1) items.1.2, items.2) := by
  intro far cs ds h
  obtain ⟨hrest, hfar⟩ := hitem.many (cs.length + 1) far h
  simp only [← h.length_eq, hfar]
  exact hrest.expect _ _ _ rfl

end

section

variable {item : Seeker Datum}

theorem IgnoresSpelling.wrapped (head : String) (hitem : IgnoresSpelling item) :
    IgnoresSpelling (wrapped head item) := by
  intro far cs ds h
  have hinner := hitem far h.skipBlanks
  unfold Reader.wrapped
  generalize item far (skipBlanks cs) = found at hinner ⊢
  generalize item far (skipBlanks ds) = found' at hinner ⊢
  cases hinner with
  | none far => exact .none far
  | some first second far hrest => exact .some _ _ far hrest

theorem IgnoresSpelling.listItems {close : Char} (hclose : isSymbolChar close = false)
    (hitem : IgnoresSpelling item) : IgnoresSpelling (listItems item close) := by
  intro far cs ds h
  unfold Reader.listItems
  obtain ⟨hrest, hfar⟩ := hitem.many (cs.length + 1) far h
  rw [← h.length_eq]
  rcases hmany : Reader.many item (cs.length + 1) far cs with ⟨⟨items, rest⟩, far'⟩
  rcases hmany' : Reader.many item (cs.length + 1) far ds with ⟨⟨items', rest'⟩, far''⟩
  rw [hmany, hmany'] at hrest hfar
  cases hfar
  have hskip := hrest.skipBlanks
  simp only
  split
  case h_1 more hpoint =>
    rw [hpoint] at hskip
    obtain ⟨more', hpoint', hmore⟩ := hskip.wordless ['.'] rfl
    have htail := hitem far' hmore.skipBlanks
    rw [hpoint']
    simp only [List.cons_append, List.nil_append]
    generalize item far' (skipBlanks more) = found at htail ⊢
    generalize item far' (skipBlanks more') = found' at htail ⊢
    cases htail with
    | none far => exact .none far
    | some first second far hbehind => exact hbehind.expect _ _ far hclose
  case h_2 hpoint =>
    have hpoint' := hskip.not_wordless ['.'] rfl hpoint
    split
    case h_1 more' heq => exact (hpoint' more' heq).elim
    case h_2 => exact hrest.expect _ _ far' hclose

theorem IgnoresSpelling.tupleItems (hitem : IgnoresSpelling item) :
    IgnoresSpelling (tupleItems item) :=
  hitem.closed .tuple

end

theorem ignoresSpelling_binaryItems : IgnoresSpelling binaryItems :=
  ignoresSpelling_byteLiteral.closed .binary

/-- A datum is sought alike whatever words are in the text. -/
theorem ignoresSpelling_datum (depth : Nat) : IgnoresSpelling (datum depth) := by
  induction depth with
  | zero => exact fun far _ _ _ => .none far
  | succ depth ih =>
    intro far cs ds h
    conv in datum (depth + 1) far cs => unfold datum
    simp only
    rw [h.length_eq]
    split
    case h_1 rest =>
      obtain ⟨rest', rfl, hrest⟩ := h.wordless ['\x27'] rfl
      exact ih.wrapped "quote" _ hrest
    case h_2 rest =>
      obtain ⟨rest', rfl, hrest⟩ := h.wordless ['\x60'] rfl
      exact ih.wrapped "backquote" _ hrest
    case h_3 rest =>
      obtain ⟨rest', rfl, hrest⟩ := h.wordless [',', '@'] rfl
      exact (ih.wrapped "comma-at" _ hrest).orElse fun far =>
        ih.wrapped "comma" far (.char '@' hrest)
    case h_4 rest hat =>
      obtain ⟨rest', rfl, hrest⟩ := h.wordless [','] rfl
      have hat' : ∀ more, rest' = '@' :: more → False :=
        hrest.not_wordless ['@'] rfl hat
      rw [List.singleton_append, datum.eq_5 far depth rest' hat']
      exact ih.wrapped "comma" _ hrest
    case h_5 rest =>
      obtain ⟨rest', rfl, hrest⟩ := h.wordless ['#', '('] rfl
      exact (ih.tupleItems _ hrest).orElse fun far => h.atom? far
    case h_6 rest =>
      obtain ⟨rest', rfl, hrest⟩ := h.wordless ['#', 'B', '('] rfl
      exact (ignoresSpelling_binaryItems _ hrest).orElse fun far => h.atom? far
    case h_7 rest =>
      obtain ⟨rest', rfl, hrest⟩ := h.wordless ['('] rfl
      exact ih.listItems rfl _ hrest
    case h_8 rest =>
      obtain ⟨rest', rfl, hrest⟩ := h.wordless ['['] rfl
      exact ih.listItems rfl _ hrest
    case h_9 rest =>
      obtain ⟨rest', rfl, hrest⟩ := h.wordless ['"'] rfl
      exact hrest.stringDatum _
    case h_10 rest =>
      obtain ⟨rest', rfl, hrest⟩ := h.wordless ['|'] rfl
      exact hrest.barSymbol _
    case h_11 hquote hback hcommaAt hcomma htuple hbinary hround hsquare hstring hbar =>
      -- What stands at the front of one text without a word stands at the front of the other.
      rw [datum.eq_12 far ds depth (h.not_wordless ['\x27'] rfl hquote)
        (h.not_wordless ['\x60'] rfl hback)
        (h.not_wordless [',', '@'] rfl hcommaAt)
        (h.not_wordless [','] rfl hcomma)
        (h.not_wordless ['#', '('] rfl htuple)
        (h.not_wordless ['#', 'B', '('] rfl hbinary)
        (h.not_wordless ['('] rfl hround)
        (h.not_wordless ['['] rfl hsquare)
        (h.not_wordless ['"'] rfl hstring)
        (h.not_wordless ['|'] rfl hbar)]
      exact h.atom? _

end HeaderForms.Reader
