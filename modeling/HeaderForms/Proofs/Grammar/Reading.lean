-- SUMMARY: The reader finds what the grammar matches, and the data found stand for the pairs left.
import HeaderForms.Proofs.Grammar.Atom

/-!
# The reader and the grammar

The reader and the grammar go over a text alike: where the one finds a datum the other matches and
leaves a pair that the datum stands for, and both give the same text back to be read on. One lemma
says so for each rule, given that it holds of the shorter texts inside.
-/

namespace HeaderForms.Grammar

open Pattern Reader

/-! ## Answers -/

/-- What was found in a text is what the pattern matches there, and `R` holds of the pair left. -/
def Answers (p : Pattern) (R : Pair → α → Prop) (cs : List Char) :
    Option (α × List Char) → Prop
  | some (found, rest) =>
    rest.length < cs.length ∧ ∃ pair, Matches .plain p cs (some ([pair], rest)) ∧ R pair found
  | none => Matches .plain p cs none

theorem Answers.choice {p q : Pattern} {R : Pair → α → Prop} {cs : List Char}
    {found other : Option (α × List Char)} (hp : Answers p R cs found)
    (hq : found = none → Answers q R cs other) : Answers (.choice p q) R cs (found.or other) := by
  cases found with
  | some found =>
    obtain ⟨hlength, pair, hmatches, hpair⟩ := hp
    exact ⟨hlength, pair, .choice_first hmatches, hpair⟩
  | none =>
    have hother := hq rfl
    cases other with
    | some other =>
      obtain ⟨hlength, pair, hmatches, hpair⟩ := hother
      exact ⟨hlength, pair, .choice_second hp hmatches, hpair⟩
    | none => exact .choice_second hp hother

/-! ## First characters

A rule whose first characters are not there does not match, so only the others have to be tried. -/

def Rule.starts (cs : List Char) : Rule → Bool
  | .quoted => ['\x27'].isPrefixOf cs
  | .backquoted => ['\x60'].isPrefixOf cs
  | .commaAt => [',', '@'].isPrefixOf cs
  | .comma => [','].isPrefixOf cs
  | .tuple => ['#', '('].isPrefixOf cs
  | .binary => ['#', 'B', '('].isPrefixOf cs
  | .list => ['('].isPrefixOf cs || ['['].isPrefixOf cs
  | .string => ['"'].isPrefixOf cs
  | .barSymbol => ['|'].isPrefixOf cs
  | .float | .integer | .symbol => cs.head?.any isSymbolChar
  | _ => true

theorem starts_eq_false {opener cs : List Char} (h : ∀ rest, cs = opener ++ rest → False) :
    opener.isPrefixOf cs = false := by
  refine Bool.eq_false_iff.2 fun hprefix => ?_
  obtain ⟨rest, heq⟩ := List.isPrefixOf_iff_prefix.1 hprefix
  exact h rest heq.symm

theorem fails_of_opener {mode : Mode} {opener cs : List Char} (h : opener.isPrefixOf cs = false)
    (q : Pattern) : Matches mode (.andThen (.text opener) q) cs none := by
  refine .andThen_fails (.text_fails fun rest heq => ?_)
  rw [List.isPrefixOf_iff_prefix.2 ⟨rest, heq.symm⟩] at h
  cases h

theorem fails_of_not_starts {rule : Rule} {cs : List Char} (h : rule.starts cs = false) :
    Matches .plain (.call rule) cs none := by
  have hnone : ∀ c ∈ ([] : List Char), isSymbolChar c = true := nofun
  cases rule with
  | program | endOfText | form | dottedTail | stringInner | barInner => cases h
  | quoted | backquoted | commaAt | comma | tuple | binary | string | barSymbol =>
    exact .call_fails (fails_of_opener h _)
  | list =>
    obtain ⟨hround, hsquare⟩ := Bool.or_eq_false_iff.1 h
    exact .call_fails (.choice_second (fails_of_opener hround _) (fails_of_opener hsquare _))
  | float => exact matches_float hnone h
  | integer => exact matches_integer hnone h
  | symbol => exact matches_symbol hnone h

/-- Rules that do not start where the text does can be left out of a choice. -/
theorem oneOf_of_filter {rules : List Rule} {keep : Rule → Bool} {cs : List Char} {answer : Answer}
    (hkeep : ∀ rule ∈ rules, keep rule = false → rule.starts cs = false)
    (h : Matches .plain (.oneOf ((rules.filter keep).map .call)) cs answer) :
    Matches .plain (.oneOf (rules.map .call)) cs answer := by
  induction rules generalizing answer with
  | nil => exact h
  | cons rule rules ih =>
    have hrules := fun other hother => hkeep other (List.mem_cons_of_mem rule hother)
    cases hrule : keep rule with
    | false =>
      have hstarts := hkeep rule List.mem_cons_self hrule
      rw [List.filter_cons_of_neg (by simp [hrule])] at h
      exact .choice_second (fails_of_not_starts hstarts) (ih hrules h)
    | true =>
      rw [List.filter_cons_of_pos hrule] at h
      cases h with
      | choice_first hfirst => exact .choice_first hfirst
      | choice_second hfirst hsecond => exact .choice_second hfirst (ih hrules hsecond)

theorem Answers.form_of_filter {R : Pair → α → Prop} {cs : List Char} {keep : Rule → Bool}
    {found : Option (α × List Char)}
    (hkeep : ∀ rule ∈ forms, keep rule = false → rule.starts cs = false)
    (h : Answers (.oneOf ((forms.filter keep).map .call)) R cs found) :
    Answers (.call .form) R cs found := by
  cases found with
  | some found =>
    obtain ⟨hlength, pair, hmatches, hpair⟩ := h
    obtain ⟨text, htext⟩ := hmatches.suffix
    have hform : Matches .plain (.call .form) cs (some ([pair], found.2)) :=
      .call (oneOf_of_filter hkeep hmatches) htext.symm
    exact ⟨hlength, pair, hform, hpair⟩
  | none => exact .call_fails (oneOf_of_filter hkeep h)

/-- A form is told by the rules whose first characters are there. -/
theorem Answers.form {R : Pair → α → Prop} {cs : List Char} {found : Option (α × List Char)}
    {rules : List Rule} (hrules : forms.filter (·.starts cs) = rules)
    (h : Answers (.oneOf (rules.map .call)) R cs found) : Answers (.call .form) R cs found :=
  .form_of_filter (fun _ _ hstarts => hstarts) (hrules ▸ h)

theorem answers_never {R : Pair → α → Prop} {cs : List Char} : Answers (.oneOf []) R cs none :=
  .absent_fails (.text rfl)

/-- A form of a kind that alone has its first characters. -/
theorem Answers.only {R : Pair → α → Prop} {cs : List Char} {found : Option (α × List Char)}
    {rule : Rule} (h : Answers (.call rule) R cs found)
    (hrule : forms.filter (·.starts cs) = [rule]) : Answers (.call .form) R cs found := by
  refine .form hrule ?_
  rw [← @Option.or_none _ found]
  exact h.choice fun _ => answers_never

/-! ## Items in a row -/

/-- What the grammar says of a seeker: it finds what `p` matches in all texts shorter than
`bound`. -/
def Seeks (p : Pattern) (R : Pair → α → Prop) (bound : Nat) (item : Seeker α) : Prop :=
  ∀ far cs, cs.length < bound → Answers p R cs (item far cs).1

/-- The items in a row are those of a repetition with blanks before each. -/
theorem Seeks.many {p : Pattern} {R : Pair → α → Prop} {bound : Nat} {item : Seeker α}
    (hitem : Seeks p R bound item) (count far : Nat) (cs : List Char) (hcount : cs.length < count)
    (hbound : cs.length < bound) :
    ∃ pairs, Matches .plain (.many (.seq .skip p)) cs
        (some (pairs, (Reader.many item count far cs).1.2)) ∧
      List.Forall₂ R pairs (Reader.many item count far cs).1.1 := by
  induction count generalizing far cs with
  | zero => exact absurd hcount (Nat.not_lt_zero _)
  | succ count ih =>
    have hskip := length_skipBlanks_le cs
    have hfirst := hitem far (skipBlanks cs) (by omega)
    rw [Reader.many]
    rcases hfound : item far (skipBlanks cs) with ⟨found, far'⟩
    rw [hfound] at hfirst
    cases found with
    | none => exact ⟨[], .many_stop ((matches_skip cs).seq_of hfirst), .nil⟩
    | some found =>
      obtain ⟨hlength, pair, hmatches, hpair⟩ := hfirst
      obtain ⟨pairs, hmore, hpairs⟩ := ih far' found.2 (by omega) (by omega)
      exact ⟨pair :: pairs, .many_step ((matches_skip cs).seq_of hmatches) hmore,
        .cons hpair hpairs⟩

/-- What stands behind repeated items is matched where the blanks behind them end. -/
theorem star_andThen {p q : Pattern} {cs rest : List Char} {pairs : List Pair} {answer : Answer}
    (hitems : Matches .plain (.many (.seq .skip p)) cs (some (pairs, rest)))
    (hq : Matches .plain q (skipBlanks rest) answer) :
    Matches .plain (.andThen (.star p) q) (skipBlanks cs)
      (answer.map fun found => (pairs ++ found.1, found.2)) := by
  -- A repetition skips no blanks before its first item, so whether there is one has to be told.
  cases hitems with
  | many_stop hnone =>
    cases hnone with
    | seq_first_fails hskip => cases hskip.unique (matches_skip cs)
    | seq_second_fails hskip hitem =>
      cases hskip.unique (matches_skip cs)
      have hstar : Matches .plain (.star p) (skipBlanks cs) (some ([], skipBlanks cs)) :=
        .choice_second (.seq_first_fails hitem) (.text rfl)
      have hbehind := matches_skip (skipBlanks cs)
      rw [skipBlanks_skipBlanks] at hbehind
      exact hstar.andThen hbehind hq
  | many_step hfirst hmore =>
    cases hfirst with
    | seq hskip hitem =>
      cases hskip.unique (matches_skip cs)
      have hstar := Matches.choice_first (q := .empty) (.seq hitem hmore)
      exact hstar.andThen (matches_skip rest) hq

/-! ## Atoms -/

section

variable (cs : List Char)

theorem length_dropWhile_lt (h : cs.takeWhile isSymbolChar ≠ []) :
    (cs.dropWhile isSymbolChar).length < cs.length := by
  have hlength := congrArg List.length
    (List.takeWhile_append_dropWhile (p := isSymbolChar) (l := cs))
  have hpos := List.length_pos_of_ne_nil h
  rw [List.length_append] at hlength
  omega

/-- An atom is the whole run at the front or is none. -/
theorem answers_run {rule : Rule} {whole : Prop} [Decidable whole] {R : Pair → α → Prop} {found : α}
    (hmatches : Matches .plain (.call rule)
      (cs.takeWhile isSymbolChar ++ cs.dropWhile isSymbolChar)
      (if whole then some ([.mk rule (cs.takeWhile isSymbolChar)
        (cs.dropWhile isSymbolChar).length []], cs.dropWhile isSymbolChar) else none))
    (hnil : whole → cs.takeWhile isSymbolChar ≠ [])
    (hfound : whole → R (.mk rule (cs.takeWhile isSymbolChar)
      (cs.dropWhile isSymbolChar).length []) found) :
    Answers (.call rule) R cs
      (if whole then some (found, cs.dropWhile isSymbolChar) else none) := by
  rw [List.takeWhile_append_dropWhile] at hmatches
  split
  case isTrue hwhole =>
    rw [if_pos hwhole] at hmatches
    exact ⟨length_dropWhile_lt cs (hnil hwhole), _, hmatches, hfound hwhole⟩
  case isFalse hwhole => rwa [if_neg hwhole] at hmatches

theorem ne_nil_of_isIntegerText {run : List Char} (h : isIntegerText run = true) : run ≠ [] := by
  rintro rfl
  cases h

theorem seeks_byteLiteral (bound : Nat) : Seeks (.call .integer) IsInteger bound byteLiteral :=
  fun _ cs _ => answers_run cs
    (matches_integer (isSymbolChar_of_mem_run cs) (ends_dropWhile cs)) ne_nil_of_isIntegerText
    fun _ => rfl

/-- The reader tries the kinds of atom in the order of the grammar. -/
theorem atom?_eq :
    atom? cs =
      (if isFloatText (cs.takeWhile isSymbolChar) then
        some (Datum.float ⟨cs.takeWhile isSymbolChar, (cs.dropWhile isSymbolChar).length⟩,
          cs.dropWhile isSymbolChar) else none).or
      ((if isIntegerText (cs.takeWhile isSymbolChar) then
        some (Datum.integer ⟨cs.takeWhile isSymbolChar, (cs.dropWhile isSymbolChar).length⟩,
          cs.dropWhile isSymbolChar) else none).or
      ((if cs.takeWhile isSymbolChar ≠ [] ∧ cs.takeWhile isSymbolChar ≠ ['.'] then
        some (Datum.symbol (cs.takeWhile isSymbolChar), cs.dropWhile isSymbolChar) else none).or
      none)) := by
  rw [atom?]
  generalize cs.takeWhile isSymbolChar = run
  by_cases hnil : run = []
  · subst hnil
    rfl
  by_cases hpoint : run = ['.']
  · subst hpoint
    rfl
  cases hfloat : isFloatText run <;> cases hinteger : isIntegerText run <;> simp [hnil, hpoint]

theorem answers_atom (whole : List Char) :
    Answers (.oneOf ([.float, .integer, .symbol].map .call)) (Represents whole) cs
      (atom? cs) := by
  have hrun := isSymbolChar_of_mem_run cs
  have hends := ends_dropWhile cs
  have hfloat := answers_run cs (matches_float hrun hends) (R := Represents whole)
    (by
      intro htext hnil
      rw [hnil] at htext
      cases htext)
    fun htext => represents_float _ _ (parse?_isSome_of_isFloatText htext)
  have hinteger := answers_run cs (matches_integer hrun hends) (R := Represents whole)
    ne_nil_of_isIntegerText fun _ => represents_integer _ _
  have hsymbol := answers_run cs (matches_symbol hrun hends) (R := Represents whole)
    And.left fun _ => represents_symbol _ _
  rw [atom?_eq]
  exact hfloat.choice fun _ => hinteger.choice fun _ => hsymbol.choice fun _ => answers_never

end

/-! ## Compound forms -/

/-- The pairs left by `p` are those inside a pair of `rule` that stands for the datum found. -/
def Fills (whole : List Char) (rule : Rule) (p : Pattern) (cs : List Char) :
    Option (Datum × List Char) → Prop
  | some (datum, rest) => ∃ children, Matches .plain p cs (some (children, rest)) ∧
    ∀ text after, Represents whole (.mk rule text after children) datum
  | none => Matches .plain p cs none

variable {whole : List Char} {found : Option (Datum × List Char)} {bound : Nat}
  {item : Seeker Datum}

theorem Fills.opened {rule : Rule} {q : Pattern} (opener : List Char) {cs : List Char}
    (h : Fills whole rule q (skipBlanks cs) found) (hopener : opener ≠ [])
    (hmode : rule.mode .plain = .plain) (hform : rule ≠ .form)
    (hbody : ∀ answer, Matches .plain (.andThen (.text opener) q) (opener ++ cs) answer →
      Matches .plain rule.body (opener ++ cs) answer) :
    Answers (.call rule) (Represents whole) (opener ++ cs) found := by
  have hopening : Matches .plain (.text opener) (opener ++ cs) (some ([], cs)) := .text rfl
  cases found with
  | none =>
    have hfails := hbody _ (hopening.andThen (matches_skip cs) h)
    rw [← hmode] at hfails
    exact .call_fails hfails
  | some found =>
    obtain ⟨children, hchildren, hrepresents⟩ := h
    have hmatches := hbody _ (hopening.andThen (matches_skip cs) hchildren)
    obtain ⟨text, htext⟩ := hmatches.suffix
    rw [← hmode] at hmatches
    have hcall := Matches.call hmatches htext.symm
    rw [Rule.leaves, if_neg (by simp [hform])] at hcall
    have hlength := hchildren.suffix.length_le
    have hskip := length_skipBlanks_le cs
    have hpos := List.length_pos_of_ne_nil hopener
    refine ⟨?_, _, hcall, hrepresents text _⟩
    rw [List.length_append]
    omega

theorem fills_wrapped {rule : Rule} {head : String} (hrule : headOf? rule = some head)
    (hitem : Seeks (.call .form) (Represents whole) bound item) (far : Nat) {cs : List Char}
    (hcs : cs.length < bound) :
    Fills whole rule (.call .form) (skipBlanks cs) (wrapped head item far cs).1 := by
  have hskip := length_skipBlanks_le cs
  have hinner := hitem far (skipBlanks cs) (by omega)
  rw [wrapped]
  rcases hfound : item far (skipBlanks cs) with ⟨found, far'⟩
  rw [hfound] at hinner
  cases found with
  | none => exact hinner
  | some found =>
    obtain ⟨-, pair, hmatches, hpair⟩ := hinner
    exact ⟨[pair], hmatches, fun text after => hpair.wrapped text after hrule⟩

/-- Pairs before a closing character. -/
theorem fills_expect {rule : Rule} {p : Pattern} {close : Char} {cs rest : List Char}
    {datum : Datum} {pairs : List Pair}
    (hpairs : ∀ text after, Represents whole (.mk rule text after pairs) datum)
    (hmatches : ∀ answer, Matches .plain (.text [close]) (skipBlanks rest) answer →
      Matches .plain p cs (answer.map fun found => (pairs ++ found.1, found.2))) :
    Fills whole rule p cs (expect close datum rest) := by
  rw [expect]
  split
  case h_1 c behind hskip =>
    rw [hskip] at hmatches
    split
    case isTrue hc =>
      have hclosed := hmatches _ (.text (congrArg (· :: behind) hc))
      exact ⟨pairs ++ [], hclosed, by rwa [List.append_nil]⟩
    case isFalse hc => exact hmatches none (.text_fails fun _ heq => hc (List.cons.inj heq).1)
  case h_2 hskip =>
    rw [hskip] at hmatches
    exact hmatches none (.text_fails fun _ heq => absurd heq.symm (List.cons_ne_nil _ _))

theorem fills_tuple (hitem : Seeks (.call .form) (Represents whole) bound item) (far : Nat)
    {cs : List Char} (hcs : cs.length < bound) :
    Fills whole .tuple (.andThen (.star (.call .form)) (.text [')'])) (skipBlanks cs)
      (tupleItems item far cs).1 := by
  obtain ⟨pairs, hitems, hpairs⟩ := hitem.many (cs.length + 1) far cs (Nat.lt_add_one _) hcs
  exact fills_expect (RepresentsAll.tuple · · hpairs) fun _ => star_andThen hitems

theorem fills_binary (far : Nat) (cs : List Char) :
    Fills whole .binary (.andThen (.star (.call .integer)) (.text [')'])) (skipBlanks cs)
      (binaryItems far cs).1 := by
  have hlength := Nat.lt_add_one cs.length
  obtain ⟨pairs, hitems, hpairs⟩ :=
    (seeks_byteLiteral (cs.length + 1)).many (cs.length + 1) far cs hlength hlength
  exact fills_expect (represents_binary · · hpairs) fun _ => star_andThen hitems

/-- A list has no tail where no point stands. -/
theorem dottedTail_fails {cs : List Char} (h : ∀ more, cs ≠ '.' :: more) :
    Matches .plain (.optional (.call .dottedTail)) cs (some ([], cs)) :=
  .choice_second (.call_fails (.andThen_fails (.text_fails h))) (.text rfl)

theorem fills_list (hitem : Seeks (.call .form) (Represents whole) bound item) (far : Nat)
    {cs : List Char} {close : Char} (hpoint : close ≠ '.') (hcs : cs.length < bound) :
    Fills whole .list (.andThen (.star (.call .form))
      (.andThen (.optional (.call .dottedTail)) (.text [close]))) (skipBlanks cs)
      (listItems item close far cs).1 := by
  obtain ⟨pairs, hitems, hpairs⟩ := hitem.many (cs.length + 1) far cs (Nat.lt_add_one _) hcs
  have hitemsLength := hitems.suffix.length_le
  rw [listItems]
  rcases hmany : many item (cs.length + 1) far cs with ⟨⟨items, rest⟩, far'⟩
  rw [hmany] at hitems hpairs hitemsLength
  have hrest := matches_skip (skipBlanks rest)
  rw [skipBlanks_skipBlanks] at hrest
  simp only
  split
  case h_1 more hskip =>
    have hmore := length_lt_of_skipBlanks hskip
    have hlength := length_skipBlanks_le more
    have htail := hitem far' (skipBlanks more) (by simp only at hitemsLength; omega)
    rcases hfound : item far' (skipBlanks more) with ⟨found, far''⟩
    rw [hfound] at htail
    have hopening : Matches .plain (.text ['.']) (skipBlanks rest) (some ([], more)) := .text hskip
    cases found with
    | none =>
      -- A lone point is no tail, and no closing character either.
      have hdotted : Matches .plain (.call .dottedTail) (skipBlanks rest) none :=
        .call_fails (hopening.andThen (matches_skip more) htail)
      have hclose : Matches .plain (.text [close]) (skipBlanks rest) none := by
        rw [hskip]
        exact .text_fails fun _ heq => hpoint (List.cons.inj heq).1.symm
      exact star_andThen hitems ((Matches.choice_second hdotted (.text rfl)).andThen hrest hclose)
    | some found =>
      obtain ⟨-, pair, hmatches, hpair⟩ := htail
      obtain ⟨inner, hinner⟩ := (hopening.andThen (matches_skip more) hmatches).suffix
      have hdotted : Matches .plain (.call .dottedTail) (skipBlanks rest)
          (some ([.mk .dottedTail inner found.2.length [pair]], found.2)) :=
        .call (hopening.andThen (matches_skip more) hmatches) hinner.symm
      refine fills_expect (RepresentsAll.dotted · · hpairs hpair inner found.2.length)
        fun answer hclose => ?_
      have htaken : Matches .plain (.optional (.call .dottedTail)) (skipBlanks rest) _ :=
        .choice_first hdotted
      have hbehind := htaken.andThen (matches_skip found.2) hclose
      simpa [Function.comp_def] using star_andThen hitems hbehind
  case h_2 hskip =>
    refine fills_expect (RepresentsAll.list · · hpairs) fun answer hclose => ?_
    have hbehind := (dottedTail_fails hskip).andThen hrest hclose
    simpa [Function.comp_def] using star_andThen hitems hbehind

/-! ## Forms -/

theorem orElse_fst (first : Attempt α) (second : Nat → Attempt α) :
    (Reader.orElse first second).1 = first.1.or (second first.2).1 := by
  rcases first with ⟨_ | found, far⟩ <;> rfl

theorem length_lt_of_opener {opener cs : List Char} (hopener : opener ≠ [])
    (h : (opener ++ cs).length ≤ bound) : cs.length < bound := by
  have hpos := List.length_pos_of_ne_nil hopener
  rw [List.length_append] at h
  omega

theorem answers_wrapped (rule : Rule) (opener : List Char) {head : String} {cs : List Char}
    (hrule : headOf? rule = some head)
    (hbody : rule.body = .andThen (.text opener) (.call .form)) (hopener : opener ≠ [])
    (hitem : Seeks (.call .form) (Represents whole) bound item) (far : Nat)
    (hcs : (opener ++ cs).length ≤ bound) :
    Answers (.call rule) (Represents whole) (opener ++ cs) (wrapped head item far cs).1 := by
  have hfills := fills_wrapped hrule hitem far (length_lt_of_opener hopener hcs)
  refine hfills.opened opener hopener ?_ ?_ fun _ h => hbody ▸ h
  · cases rule <;> first | rfl | cases hrule
  · rintro rfl
    cases hrule

theorem answers_tuple (hitem : Seeks (.call .form) (Represents whole) bound item) (far : Nat)
    {cs : List Char} (hcs : ('#' :: '(' :: cs).length ≤ bound) :
    Answers (.call .tuple) (Represents whole) ('#' :: '(' :: cs) (tupleItems item far cs).1 :=
  have hfills := fills_tuple hitem far ((Nat.lt_add_one _).trans hcs)
  hfills.opened ['#', '('] nofun rfl nofun fun _ h => h

theorem answers_binary (whole : List Char) (far : Nat) (cs : List Char) :
    Answers (.call .binary) (Represents whole) ('#' :: 'B' :: '(' :: cs) (binaryItems far cs).1 :=
  (fills_binary far cs).opened ['#', 'B', '('] nofun rfl nofun fun _ h => h

theorem answers_list {opener close : Char} (hclose : close ≠ '.')
    (hitem : Seeks (.call .form) (Represents whole) bound item) (far : Nat) {cs : List Char}
    (hcs : (opener :: cs).length ≤ bound)
    (hbody : ∀ answer, Matches .plain (bracketed opener close) (opener :: cs) answer →
      Matches .plain Rule.list.body (opener :: cs) answer) :
    Answers (.call .list) (Represents whole) (opener :: cs) (listItems item close far cs).1 :=
  (fills_list hitem far hclose hcs).opened [opener] nofun rfl nofun hbody

theorem answers_quoted {outer inner : Rule} {close : Char} {datumOf : List Char → Datum}
    (hclose : close ≠ '\\') {cs : List Char}
    (hmatches : Matches .plain (.call outer) (close :: cs) ((enclosed? close cs).map fun found =>
      ([.mk outer (close :: (found.1 ++ [close])) found.2.length
        [.mk inner found.1 (found.2.length + 1) []]], found.2)))
    (hrepresents : ∀ text after inside behind, Represents whole
      (.mk outer text after [.mk inner inside behind []]) (datumOf inside)) :
    Answers (.call outer) (Represents whole) (close :: cs)
      ((enclosed? close cs).map fun (inside, rest) => (datumOf inside, rest)) := by
  rcases enclosed?_cases hclose cs with ⟨hnone, -⟩ | ⟨inside, rest, hsome, rfl, -⟩
  · rwa [hnone] at hmatches ⊢
  · rw [hsome] at hmatches ⊢
    refine ⟨?_, _, hmatches, hrepresents _ _ _ _⟩
    simp only [List.length_append, List.length_cons]
    omega

theorem answers_string (cs : List Char) :
    Answers (.call .string) (Represents whole) ('"' :: cs) (stringDatum cs) := by
  have hquote : '"' ≠ '\\' := by decide
  have hmatches := matches_quoted .string .stringInner hquote rfl rfl rfl rfl ⟨nofun, nofun⟩ cs
  exact answers_quoted hquote hmatches represents_string

theorem answers_barSymbol (cs : List Char) :
    Answers (.call .barSymbol) (Represents whole) ('|' :: cs) (barSymbol cs) := by
  have hbar : '|' ≠ '\\' := by decide
  have hmatches := matches_quoted .barSymbol .barInner hbar rfl rfl rfl rfl ⟨nofun, nofun⟩ cs
  exact answers_quoted hbar hmatches represents_barSymbol

/-- The kinds of form that are the whole run of symbol characters at the front. -/
def Rule.isRun : Rule → Bool
  | .float | .integer | .symbol => true
  | _ => false

/-- The reader finds a datum where the grammar matches a form. -/
theorem seeks_datum (whole : List Char) (depth : Nat) :
    Seeks (.call .form) (Represents whole) depth (datum depth) := by
  induction depth with
  | zero => exact fun _ _ hcs => absurd hcs (Nat.not_lt_zero _)
  | succ depth ih =>
    intro far cs hcs
    have hle := Nat.le_of_lt_succ hcs
    unfold datum
    simp only
    split
    case h_1 rest => exact (answers_wrapped .quoted ['\x27'] rfl rfl nofun ih _ hle).only rfl
    case h_2 rest => exact (answers_wrapped .backquoted ['\x60'] rfl rfl nofun ih _ hle).only rfl
    case h_3 rest =>
      -- Without a form behind `,@` the text may still be a comma before the symbol `@`.
      rw [orElse_fst, ← @Option.or_none _ (wrapped "comma" _ _ _).1]
      have hat := answers_wrapped .commaAt [',', '@'] rfl rfl nofun ih
        (min far (rest.length + 2)) hle
      refine .form rfl (hat.choice fun _ => .choice ?_ fun _ => answers_never)
      exact answers_wrapped .comma [','] rfl rfl nofun ih _ hle
    case h_4 rest hat =>
      refine (answers_wrapped .comma [','] rfl rfl nofun ih _ hle).only ?_
      have hcommaAt : Rule.starts (',' :: rest) .commaAt = false :=
        starts_eq_false fun more heq => hat more (List.cons.inj heq).2
      change (match Rule.starts (',' :: rest) .commaAt with
        | true => [Rule.commaAt, .comma]
        | false => [.comma]) = [.comma]
      rw [hcommaAt]
    case h_5 rest =>
      rw [orElse_fst]
      exact .form rfl ((answers_tuple ih _ hle).choice fun _ => answers_atom _ whole)
    case h_6 rest =>
      rw [orElse_fst]
      exact .form rfl ((answers_binary whole _ rest).choice fun _ => answers_atom _ whole)
    case h_7 rest =>
      refine (answers_list (by decide) ih _ hle fun answer h => ?_).only rfl
      cases answer with
      | some found => exact .choice_first h
      | none => exact .choice_second h (fails_of_opener rfl _)
    case h_8 rest =>
      refine (answers_list (by decide) ih _ hle fun answer h => ?_).only rfl
      exact .choice_second (fails_of_opener rfl _) h
    case h_9 rest => exact (answers_string rest).only rfl
    case h_10 rest => exact (answers_barSymbol rest).only rfl
    case h_11 hquote hback hcommaAt hcomma htuple hbinary hround hsquare hstring hbar =>
      -- An atom may not be there either, so only the rules with an opening mark are left out.
      have hatoms : Answers (.oneOf ((forms.filter Rule.isRun).map .call)) (Represents whole) cs
        (atom? cs) := answers_atom cs whole
      refine .form_of_filter ?_ hatoms
      intro rule hrule hkeep
      simp only [forms, List.mem_cons, List.not_mem_nil, or_false] at hrule
      rcases hrule with rfl | rfl | rfl | rfl | rfl | rfl | rfl | rfl | rfl | rfl | rfl | rfl
      · exact starts_eq_false hquote
      · exact starts_eq_false hback
      · exact starts_eq_false hcommaAt
      · exact starts_eq_false hcomma
      · exact starts_eq_false htuple
      · exact starts_eq_false hbinary
      · exact Bool.or_eq_false_iff.2 ⟨starts_eq_false hround, starts_eq_false hsquare⟩
      · exact starts_eq_false hstring
      · cases hkeep
      · cases hkeep
      · exact starts_eq_false hbar
      · cases hkeep

/-! ## Texts -/

/-- The pairs of the forms of a program, and the pair of the end of the text. -/
def programPair (text : List Char) (pairs : List Pair) : Pair :=
  .mk .program text 0 (pairs ++ [.mk .endOfText [] 0 []])

theorem matches_program {text rest : List Char} {pairs : List Pair} {answer : Answer}
    (hforms : Matches .plain (.many (.seq .skip (.call .form))) text (some (pairs, rest)))
    (hend : Matches .plain (.call .endOfText) (skipBlanks rest) answer) :
    Matches .plain Rule.program.body text
      (answer.map fun found => (pairs ++ found.1, found.2)) := by
  have hstart : Matches .plain .empty text (some ([], text)) := .text rfl
  have hall := hstart.andThen (matches_skip text) (star_andThen hforms hend)
  simpa [Rule.body, Function.comp_def] using hall

/-- A text has data exactly if the grammar accepts it, and then the data stand for its pairs. -/
theorem data_cases (text : List Char) :
    (∃ data pairs, Reader.data text = .ok data ∧ Accepts text (programPair text pairs) ∧
        RepresentsAll text pairs data) ∨
      ∃ far top, Reader.data text =
        .error (.unreadable (fault text far top) ⟨offset text far, offset text far⟩) ∧
        Rejects text := by
  have hlength := Nat.lt_add_one text.length
  obtain ⟨pairs, hforms, hpairs⟩ :=
    (seeks_datum text (text.length + 1)).many (text.length + 1) text.length text hlength hlength
  rw [Reader.data]
  rcases hmany : many (datum (text.length + 1)) (text.length + 1) text.length text with
    ⟨⟨data, rest⟩, far⟩
  rw [hmany] at hforms hpairs
  cases hskip : skipBlanks rest with
  | nil =>
    have hend : Matches .plain (.call .endOfText) (skipBlanks rest)
        (some ([.mk .endOfText [] 0 []], [])) := by
      have hbody : Matches (Rule.mode .plain .endOfText) Rule.endOfText.body [] (some ([], [])) :=
        .finish
      rw [hskip]
      exact .call hbody (List.append_nil []).symm
    have hbody : Matches (Rule.mode .plain .program) Rule.program.body text
        (some (pairs ++ [.mk .endOfText [] 0 []], [])) := matches_program hforms hend
    have hprogram : Matches .plain (.call .program) text (some ([programPair text pairs], [])) :=
      .call hbody (List.append_nil text).symm
    exact .inl ⟨data, pairs, by simp [hskip], ⟨[], hprogram⟩, hpairs⟩
  | cons c more =>
    have hend : Matches .plain (.call .endOfText) (skipBlanks rest) none := by
      rw [hskip]
      exact .call_fails .finish_fails
    exact .inr ⟨far, _, by simp [hskip]; rfl, .call_fails (matches_program hforms hend)⟩

end HeaderForms.Grammar
