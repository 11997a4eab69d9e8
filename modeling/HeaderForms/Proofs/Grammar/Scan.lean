-- SUMMARY: What patterns that call no rule match, and the blanks between forms.
import HeaderForms.Proofs.Form.Reading
import HeaderForms.Proofs.Grammar.Basic

/-!
# Scanning

A pattern that calls no rule leaves no pairs, so all that is to be told of it is the text it leaves
behind. A scanner says that as a function, and there is one for each way to put patterns together.
The scanner of the blanks between forms skips what the reader skips.
-/

namespace HeaderForms.Grammar

open Pattern Reader Numeral

/-- The text behind what is taken, if it is there. -/
abbrev Scan :=
  List Char → Option (List Char)

namespace Scan

/-- A character for which `holds`. -/
def next (holds : Char → Bool) : Scan
  | c :: cs => if holds c then some cs else none
  | [] => none

def andThen (f g : Scan) : Scan := fun cs =>
  (f cs).bind g

def orElse (f g : Scan) : Scan := fun cs =>
  (f cs).or (g cs)

def without (f : Scan) : Scan := fun cs =>
  if (f cs).isSome then none else some cs

def dropping (holds : Char → Bool) : Scan := fun cs =>
  some (cs.dropWhile holds)

/-- One or more characters for which `holds`. -/
def run (holds : Char → Bool) : Scan :=
  andThen (next holds) (dropping holds)

theorem next_ne_self (holds : Char → Bool) (cs : List Char) : next holds cs ≠ some cs := by
  cases cs with
  | nil => exact nofun
  | cons c cs =>
    intro heq
    rw [next] at heq
    split at heq
    · exact List.cons_ne_self c cs (Option.some.inj heq).symm
    · cases heq

theorem dropWhile_eq_elim (holds : Char → Bool) (cs : List Char) :
    cs.dropWhile holds = (next holds cs).elim cs (List.dropWhile holds) := by
  cases cs with
  | nil => rfl
  | cons c cs =>
    rw [next, List.dropWhile_cons]
    split <;> rfl

def literally : List Char → Scan
  | [] => some
  | c :: chars => andThen (next (· == c)) (literally chars)

end Scan

/-- The pattern takes what the scanner takes. -/
def Scans (p : Pattern) (f : Scan) : Prop :=
  ∀ cs, Matches .atomic p cs ((f cs).map fun rest => ([], rest))

/-! ## Patterns put together -/

namespace Scans

variable {p q : Pattern} {f g : Scan} {holds holds' : Char → Bool}

theorem of_some (h : Scans p f) {cs rest : List Char} (hrest : f cs = some rest) :
    Matches .atomic p cs (some ([], rest)) := by
  simpa [hrest] using h cs

theorem of_none (h : Scans p f) {cs : List Char} (hnone : f cs = none) :
    Matches .atomic p cs none := by
  simpa [hnone] using h cs

theorem one (holds : Char → Bool) : Scans (.one holds) (Scan.next holds) := by
  intro cs
  cases cs with
  | nil => exact .one_fails nofun
  | cons c cs =>
    rw [Scan.next]
    split
    case isTrue hc => exact .one hc
    case isFalse hc =>
      refine .one_fails fun d rest heq => ?_
      rw [← (List.cons.inj heq).1]
      simpa using hc

theorem any : Scans Pattern.any (Scan.next fun _ => true) :=
  one _

theorem literally_eq_some {chars cs rest : List Char} :
    Scan.literally chars cs = some rest ↔ cs = chars ++ rest := by
  induction chars generalizing cs with
  | nil => simp [Scan.literally]
  | cons c chars ih =>
    cases cs with
    | nil => simp [Scan.literally, Scan.andThen, Scan.next]
    | cons d cs =>
      by_cases hd : d = c <;> simp [Scan.literally, Scan.andThen, Scan.next, hd, ih]

theorem text (chars : List Char) : Scans (.text chars) (Scan.literally chars) := by
  intro cs
  cases hscan : Scan.literally chars cs with
  | some rest => exact .text (literally_eq_some.1 hscan)
  | none =>
    refine .text_fails fun rest heq => ?_
    rw [literally_eq_some.2 heq] at hscan
    cases hscan

theorem literally_singleton (c : Char) : Scan.literally [c] = Scan.next (· == c) := by
  funext cs
  exact Option.bind_fun_some _

theorem char (c : Char) : Scans (.text [c]) (Scan.next (· == c)) :=
  literally_singleton c ▸ text [c]

theorem empty : Scans Pattern.empty some :=
  text []

theorem seq (hp : Scans p f) (hq : Scans q g) : Scans (.seq p q) (f.andThen g) := by
  intro cs
  rw [Scan.andThen]
  cases hf : f cs with
  | none => exact .seq_first_fails (hp.of_none hf)
  | some behind =>
    rw [Option.bind_some]
    cases hg : g behind with
    | none => exact .seq_second_fails (hp.of_some hf) (hq.of_none hg)
    | some rest => exact .seq (hp.of_some hf) (hq.of_some hg)

theorem skip : Scans .skip some := fun _ =>
  .skip_nothing nofun

theorem skip_then (hp : Scans p f) : Scans (.seq .skip p) f :=
  skip.seq hp

theorem andThen (hp : Scans p f) (hq : Scans q g) : Scans (.andThen p q) (f.andThen g) :=
  hp.seq hq.skip_then

theorem choice (hp : Scans p f) (hq : Scans q g) : Scans (.choice p q) (f.orElse g) := by
  intro cs
  rw [Scan.orElse]
  cases hf : f cs with
  | some rest => exact .choice_first (hp.of_some hf)
  | none => exact .choice_second (hp.of_none hf) (hq cs)

theorem optional (hp : Scans p f) : Scans (.optional p) (f.orElse some) :=
  hp.choice empty

theorem absent (hp : Scans p f) : Scans (.absent p) f.without := by
  intro cs
  rw [Scan.without]
  cases hf : f cs with
  | some rest => exact .absent_fails (hp.of_some hf)
  | none => exact .absent (hp.of_none hf)

/-- A repetition leaves what `left` says, if `left` takes an item away wherever there is one. -/
theorem many {left : List Char → List Char} (hp : Scans p f) (hmoves : ∀ cs, f cs ≠ some cs)
    (hleft : ∀ cs, left cs = (f cs).elim cs left) : Scans (.many p) fun cs => some (left cs) := by
  intro cs
  change Matches .atomic _ cs (some ([], left cs))
  induction hlength : cs.length using Nat.strong_induction_on generalizing cs with
  | _ n ih =>
    rw [hleft]
    cases hf : f cs with
    | none => exact .many_stop (hp.of_none hf)
    | some rest =>
      have hsuffix := (hp.of_some hf).suffix
      have hshorter : rest.length < n := by
        refine hlength ▸ lt_of_le_of_ne hsuffix.length_le fun heq => hmoves cs ?_
        rw [hf, hsuffix.eq_of_length heq]
      exact .many_step (hp.of_some hf) (ih _ hshorter rest rfl)

theorem star {left : List Char → List Char} (hp : Scans p f) (hmoves : ∀ cs, f cs ≠ some cs)
    (hleft : ∀ cs, left cs = (f cs).elim cs left) : Scans (.star p) fun cs => some (left cs) := by
  have heq : (f.andThen fun cs => some (left cs)).orElse some = fun cs => some (left cs) := by
    funext cs
    rw [hleft, Scan.orElse, Scan.andThen]
    cases f cs <;> rfl
  exact heq ▸ (hp.seq (hp.skip_then.many hmoves hleft)).optional

theorem many_next (hp : Scans p (Scan.next holds)) : Scans (.many p) (Scan.dropping holds) :=
  hp.many (Scan.next_ne_self holds) (Scan.dropWhile_eq_elim holds)

theorem star_next (hp : Scans p (Scan.next holds)) : Scans (.star p) (Scan.dropping holds) :=
  hp.star (Scan.next_ne_self holds) (Scan.dropWhile_eq_elim holds)

theorem plus_next (hp : Scans p (Scan.next holds)) : Scans (.plus p) (Scan.run holds) :=
  hp.andThen hp.star_next

theorem choice_next (hp : Scans p (Scan.next holds)) (hq : Scans q (Scan.next holds')) :
    Scans (.choice p q) (Scan.next fun c => holds c || holds' c) := by
  have heq : (Scan.next holds).orElse (Scan.next holds') =
      Scan.next fun c => holds c || holds' c := by
    funext cs
    cases cs with
    | nil => rfl
    | cons c cs => cases hc : holds c <;> simp [Scan.orElse, Scan.next, hc]
  exact heq ▸ hp.choice hq

/-- Any character but those that `p` takes. -/
theorem other (hp : Scans p (Scan.next holds)) :
    Scans (.andThen (.absent p) Pattern.any) (Scan.next fun c => !holds c) := by
  have heq : (Scan.next holds).without.andThen (Scan.next fun _ => true) =
      Scan.next fun c => !holds c := by
    funext cs
    cases cs with
    | nil => rfl
    | cons c cs => cases hc : holds c <;> simp [Scan.without, Scan.andThen, Scan.next, hc]
  exact heq ▸ hp.absent.andThen any

end Scans

/-! ## Blanks -/

theorem scans_space : Scans space (Scan.next isSpace) := by
  have hnever : Scans (.absent Pattern.empty) (Scan.next fun _ => false) := by
    have heq : Scan.without some = Scan.next fun _ => false := by
      funext cs
      cases cs <;> rfl
    exact heq ▸ Scans.empty.absent
  have hspace := (Scans.char ' ').choice_next ((Scans.char '\t').choice_next
    ((Scans.char '\r').choice_next ((Scans.char '\n').choice_next hnever)))
  have heq : isSpace = fun c => c == ' ' || (c == '\t' || (c == '\r' || (c == '\n' || false))) := by
    funext c
    simp [isSpace, Bool.or_assoc, beq_eq_decide]
  exact heq ▸ hspace

/-- The text from the end of a block comment on. -/
def blockEnd : List Char → List Char
  | '|' :: '#' :: cs => '|' :: '#' :: cs
  | _ :: cs => blockEnd cs
  | [] => []

def comment : Scan :=
  ((Scan.next (· == ';')).andThen (Scan.dropping (· != '\n'))).orElse
    ((Scan.literally ['#', '|']).andThen (Scan.andThen (fun cs => some (blockEnd cs))
      (Scan.literally ['|', '#'])))

/-- A character that does not start the end of a block comment. -/
def blockChar : Scan :=
  (Scan.literally ['|', '#']).without.andThen (Scan.next fun _ => true)

theorem blockChar_cons {c : Char} {cs : List Char}
    (h : ∀ rest, c = '|' → cs = '#' :: rest → False) : blockChar (c :: cs) = some cs := by
  have hnone : Scan.literally ['|', '#'] (c :: cs) = none := by
    refine Option.eq_none_iff_forall_not_mem.2 fun rest hrest => ?_
    have heq := Scans.literally_eq_some.1 hrest
    exact h rest (List.cons.inj heq).1 (List.cons.inj heq).2
  simp [blockChar, Scan.andThen, Scan.without, hnone, Scan.next]

theorem scans_blockBody : Scans (star (andThen (.absent (.text ['|', '#'])) any))
    fun cs => some (blockEnd cs) := by
  have hchar : Scans (andThen (.absent (.text ['|', '#'])) any) blockChar :=
    (Scans.text ['|', '#']).absent.andThen Scans.any
  refine hchar.star (fun cs => ?_) fun cs => ?_
  · fun_cases blockEnd cs with
    | case1 cs => exact nofun
    | case2 c cs h =>
      rw [blockChar_cons h]
      exact fun heq => List.cons_ne_self c cs (Option.some.inj heq).symm
    | case3 => exact nofun
  · fun_cases blockEnd cs with
    | case1 cs => rfl
    | case2 c cs h => rw [blockChar_cons h, Option.elim_some]
    | case3 => rfl

theorem scans_comment : Scans (.choice lineComment blockComment) comment :=
  ((Scans.char ';').andThen (Scans.char '\n').other.star_next).choice
    ((Scans.text ['#', '|']).andThen (scans_blockBody.andThen (Scans.text ['|', '#'])))

theorem skipGap_lineComment (cs : List Char) :
    skipGap .lineComment cs = skipBlanks (cs.dropWhile (· != '\n')) := by
  induction cs with
  | nil => rfl
  | cons c cs ih =>
    by_cases hc : c = '\n'
    · subst hc
      rfl
    · rw [skipGap, if_neg hc, ih, List.dropWhile_cons_of_pos (by simp [hc])]

/-- A block comment is one for the reader exactly if it has an end. -/
theorem blockEnd_cases (cs : List Char) :
    (closesBlock cs = false ∧ blockEnd cs = []) ∨
      ∃ rest, closesBlock cs = true ∧ blockEnd cs = '|' :: '#' :: rest ∧
        skipGap .blockComment cs = skipBlanks rest := by
  fun_induction blockEnd cs with
  | case1 rest => exact .inr ⟨rest, rfl, rfl, rfl⟩
  | case2 c cs h ih =>
    rw [closesBlock.eq_2 c cs h]
    rcases ih with hnone | ⟨rest, hcloses, hend, hgap⟩
    · exact .inl hnone
    · refine .inr ⟨rest, hcloses, hend, ?_⟩
      rw [← hgap, skipGap.eq_5 c cs h]
  | case3 => exact .inl ⟨rfl, rfl⟩

theorem comment_eq_none {c : Char} {cs : List Char} (hline : c ≠ ';')
    (hblock : ∀ rest, c = '#' → cs = '|' :: rest → False) : comment (c :: cs) = none := by
  have hnone : Scan.literally ['#', '|'] (c :: cs) = none := by
    refine Option.eq_none_iff_forall_not_mem.2 fun rest hrest => ?_
    have heq := Scans.literally_eq_some.1 hrest
    exact hblock rest (List.cons.inj heq).1 (List.cons.inj heq).2
  simp [comment, Scan.orElse, Scan.andThen, Scan.next, hline, hnone]

/-- Where no blank stands, the reader skips what the grammar takes for a comment. -/
theorem skipBlanks_eq_comment {cs : List Char} (hspace : cs.head?.any isSpace = false) :
    skipBlanks cs = (comment cs).elim cs skipBlanks := by
  cases cs with
  | nil => rfl
  | cons c cs =>
    have hc : isSpace c = false := hspace
    by_cases hline : c = ';'
    · subst hline
      exact skipGap_lineComment cs
    by_cases hblock : ∃ rest, c = '#' ∧ cs = '|' :: rest
    · obtain ⟨rest, rfl, rfl⟩ := hblock
      change (if closesBlock rest then skipGap .blockComment rest else '#' :: '|' :: rest) =
        (Scan.literally ['|', '#'] (blockEnd rest)).elim _ skipBlanks
      rcases blockEnd_cases rest with ⟨hopen, hend⟩ | ⟨behind, hcloses, hend, hgap⟩
      · rw [hopen, hend]
        rfl
      · rw [hcloses, hend]
        exact hgap
    · have hblock' : ∀ rest, c = '#' → cs = '|' :: rest → False := fun rest hmark hcs =>
        hblock ⟨rest, hmark, hcs⟩
      rw [comment_eq_none hline hblock', skipBlanks, skipGap.eq_2 c cs hblock', hc,
        if_neg Bool.false_ne_true, if_neg hline, Option.elim_none]

theorem skipBlanks_dropWhile (cs : List Char) :
    skipBlanks (cs.dropWhile isSpace) = skipBlanks cs := by
  induction cs with
  | nil => rfl
  | cons c cs ih =>
    by_cases hc : isSpace c = true
    · rw [List.dropWhile_cons_of_pos hc, ih, skipBlanks, skipBlanks, skipGap.eq_2, if_pos hc]
      rintro rest rfl
      cases hc
    · rw [List.dropWhile_cons_of_neg hc]

theorem skipBlanks_skipGap (gap : Gap) (cs : List Char) :
    skipBlanks (skipGap gap cs) = skipGap gap cs := by
  fun_induction skipGap gap cs with
  | case1 cs hcloses ih => exact ih
  | case2 cs hopen =>
    change (if closesBlock cs then _ else '#' :: '|' :: cs) = _
    rw [if_neg hopen]
  | case5 c cs hblock hspace hline =>
    rw [skipBlanks, skipGap.eq_2 c cs hblock, if_neg hspace, if_neg hline]
  | _ => first | assumption | rfl

theorem skipBlanks_skipBlanks (cs : List Char) : skipBlanks (skipBlanks cs) = skipBlanks cs :=
  skipBlanks_skipGap .space cs

/-- The text behind the comments at the front and the blanks behind each. -/
def skipComments (cs : List Char) : List Char :=
  if cs.head?.any isSpace then cs else skipBlanks cs

theorem skipComments_dropWhile (cs : List Char) :
    skipComments (cs.dropWhile isSpace) = skipBlanks cs := by
  have hhead : (cs.dropWhile isSpace).head?.any isSpace = false := by
    have hfirst := List.head?_dropWhile_not isSpace cs
    cases hdrop : (cs.dropWhile isSpace).head? with
    | none => rfl
    | some c =>
      rw [hdrop] at hfirst
      exact hfirst
  rw [skipComments, hhead, if_neg Bool.false_ne_true, skipBlanks_dropWhile]

theorem length_blockEnd_le (cs : List Char) : (blockEnd cs).length ≤ cs.length := by
  fun_induction blockEnd cs with
  | case1 cs => exact le_rfl
  | case2 c cs _ ih => exact Nat.le_succ_of_le ih
  | case3 => exact le_rfl

theorem length_comment_lt {cs rest : List Char} (h : comment cs = some rest) :
    rest.length < cs.length := by
  rcases Option.or_eq_some_iff.1 h with hline | ⟨-, hblock⟩
  · obtain ⟨behind, hmark, hrest⟩ := Option.bind_eq_some_iff.1 hline
    have hcs := Scans.literally_eq_some.1 ((Scans.literally_singleton ';' ▸ hmark :))
    have hsuffix := List.dropWhile_suffix (· != '\n') (l := behind)
    cases hrest
    rw [hcs]
    exact Nat.lt_succ_of_le hsuffix.length_le
  · obtain ⟨behind, hmark, hrest⟩ := Option.bind_eq_some_iff.1 hblock
    rw [Scans.literally_eq_some.1 hmark]
    have hend := Scans.literally_eq_some.1 hrest
    have hlength := length_blockEnd_le behind
    rw [hend] at hlength
    simp only [List.length_append, List.length_cons] at hlength ⊢
    omega

/-- A comment and the blanks behind it. -/
def commentBlanks : Scan :=
  comment.andThen (Scan.dropping isSpace)

theorem commentBlanks_ne_self (cs : List Char) : commentBlanks cs ≠ some cs := by
  intro heq
  obtain ⟨rest, hcomment, hdrop⟩ := Option.bind_eq_some_iff.1 heq
  have hlength := length_comment_lt hcomment
  have hle := (List.dropWhile_suffix isSpace (l := rest)).length_le
  rw [Option.some.inj hdrop] at hle
  omega

theorem skipComments_eq_elim (cs : List Char) :
    skipComments cs = (commentBlanks cs).elim cs skipComments := by
  cases hspace : cs.head?.any isSpace with
  | true =>
    have hnone : comment cs = none := by
      cases cs with
      | nil => rfl
      | cons c cs =>
        refine comment_eq_none ?_ ?_
        · rintro rfl
          cases hspace
        · rintro rest rfl
          cases hspace
    rw [skipComments, hspace, if_pos rfl, commentBlanks, Scan.andThen, hnone]
    rfl
  | false =>
    rw [skipComments, hspace, if_neg Bool.false_ne_true, skipBlanks_eq_comment hspace,
      commentBlanks, Scan.andThen]
    cases comment cs with
    | none => rfl
    | some rest => exact (skipComments_dropWhile rest).symm

theorem scans_blanks : Scans blanks fun cs => some (skipBlanks cs) := by
  have hitem : Scans _ commentBlanks := scans_comment.seq scans_space.many_next
  have hmore := hitem.many commentBlanks_ne_self skipComments_eq_elim
  have hblanks := scans_space.many_next.seq hmore
  have heq : (Scan.dropping isSpace).andThen (fun cs => some (skipComments cs)) =
      fun cs => some (skipBlanks cs) := by
    funext cs
    exact congrArg some (skipComments_dropWhile cs)
  exact heq ▸ hblanks

theorem matches_skip (cs : List Char) : Matches .plain .skip cs (some ([], skipBlanks cs)) :=
  .skip (scans_blanks cs)

end HeaderForms.Grammar
