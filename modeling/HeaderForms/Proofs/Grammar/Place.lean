-- SUMMARY: Where the pairs of a text lie in it, and the order and the places of its literals.
import HeaderForms.Proofs.Grammar.Atom

/-!
# Places of pairs

Pairs lie one behind the other, and those inside a pair lie in its text. So the literals of a text
stand in the order in which they are listed, and the span of each holds its text.
-/

namespace HeaderForms.Grammar

open Pattern Reader

/-! ## Pairs -/

/-- The pairs lie in `cs` before `rest`, and the integers among them are written as such. -/
inductive Laid : List Char → List Pair → List Char → Prop where
  | nil {cs rest : List Char} (hrest : rest <:+ cs) : Laid cs [] rest
  | cons {rule : Rule} {gap text behind rest : List Char} {children pairs : List Pair}
    (hinteger : rule = .integer → isIntegerText text = true)
    (hchildren : Laid (text ++ behind) children behind) (hpairs : Laid behind pairs rest) :
    Laid (gap ++ (text ++ behind)) (.mk rule text behind.length children :: pairs) rest

theorem Laid.suffix {cs rest : List Char} {pairs : List Pair} (h : Laid cs pairs rest) :
    rest <:+ cs := by
  induction h with
  | nil hrest => exact hrest
  | cons _ _ _ _ ih => exact ih.trans ((List.suffix_append _ _).trans (List.suffix_append _ _))

theorem Laid.of_suffix {cs behind rest : List Char} {pairs : List Pair}
    (h : Laid behind pairs rest) (hbehind : behind <:+ cs) : Laid cs pairs rest := by
  cases h with
  | nil hrest => exact .nil (hrest.trans hbehind)
  | cons hinteger hchildren hpairs =>
    obtain ⟨before, rfl⟩ := hbehind
    rw [← List.append_assoc]
    exact .cons hinteger hchildren hpairs

theorem Laid.append {cs behind rest : List Char} {pairs more : List Pair}
    (h : Laid cs pairs behind) (hmore : Laid behind more rest) : Laid cs (pairs ++ more) rest := by
  induction h with
  | nil hrest => exact hmore.of_suffix hrest
  | cons hinteger hchildren _ _ ih => exact .cons hinteger hchildren (ih hmore)

/-- An integer that matches is written as one. -/
theorem isIntegerText_of_matches {cs text rest : List Char} {children : List Pair}
    (h : Matches .atomic Rule.integer.body cs (some (children, rest))) (htext : cs = text ++ rest) :
    isIntegerText text = true := by
  have hwhole := matches_whole (isSymbolChar_of_mem_run cs) (ends_dropWhile cs)
    scans_integerText local_integer
  rw [List.takeWhile_append_dropWhile] at hwhole
  have heq := h.unique hwhole
  split at heq
  case isTrue hinteger =>
    cases heq
    have hrun := List.takeWhile_append_dropWhile (p := isSymbolChar) (l := cs)
    rw [List.append_cancel_right (htext.symm.trans hrun.symm)]
    exact integer_eq_nil_iff.1 hinteger
  case isFalse => cases heq

theorem Matches.laid {mode : Mode} {p : Pattern} {cs rest : List Char} {pairs : List Pair}
    (h : Matches mode p cs (some (pairs, rest))) : Laid cs pairs rest := by
  generalize hanswer : (some (pairs, rest) : Answer) = answer at h
  induction h generalizing pairs rest with cases hanswer
  | text htext => exact .nil (htext ▸ List.suffix_append _ _)
  | one => exact .nil (List.suffix_cons _ _)
  | finish => exact .nil List.suffix_rfl
  | skip _ ih => exact ih rfl
  | skip_nothing => exact .nil List.suffix_rfl
  | seq _ _ ihfirst ihsecond => exact (ihfirst rfl).append (ihsecond rfl)
  | choice_first _ ih => exact ih rfl
  | choice_second _ _ _ ih => exact ih rfl
  | many_stop => exact .nil List.suffix_rfl
  | many_step _ _ ihitem ihmore => exact (ihitem rfl).append (ihmore rfl)
  | absent => exact .nil List.suffix_rfl
  | call hbody htext ih =>
    have hchildren := ih rfl
    unfold Rule.leaves
    split
    case isTrue => exact hchildren
    case isFalse =>
      rw [htext] at hchildren ⊢
      refine @Laid.cons _ [] _ _ _ _ _ ?_ hchildren (.nil List.suffix_rfl)
      rintro rfl
      exact isIntegerText_of_matches hbody htext

/-! ## Literals -/

/-- The literal stands in `cs` before `rest`. -/
structure Placed (cs rest : List Char) (literal : Literal) : Prop where
  isInteger : isIntegerText literal.text = true
  exists_eq : ∃ before behind,
    cs = before ++ (literal.text ++ behind) ∧ literal.after = behind.length ∧ rest <:+ behind

theorem Placed.bounds {cs rest : List Char} {literal : Literal} (h : Placed cs rest literal) :
    rest.length ≤ literal.after ∧ literal.after + literal.text.length ≤ cs.length := by
  obtain ⟨before, behind, rfl, hafter, hrest⟩ := h.exists_eq
  have hlength := hrest.length_le
  simp only [List.length_append]
  omega

theorem Placed.mono {cs cs' rest rest' : List Char} {literal : Literal} (h : Placed cs rest literal)
    (hcs : cs <:+ cs') (hrest : rest' <:+ rest) : Placed cs' rest' literal := by
  obtain ⟨before, behind, rfl, hafter, hbehind⟩ := h.exists_eq
  obtain ⟨gap, rfl⟩ := hcs
  exact ⟨h.isInteger, gap ++ before, behind, by rw [List.append_assoc], hafter, hrest.trans hbehind⟩

/-- One literal ends where the other starts or before. -/
def Before (first second : LiteralKind × Literal) : Prop :=
  second.2.after + second.2.text.length ≤ first.2.after

/-- The literals stand in `cs` before `rest`, in this order. -/
structure InOrder (cs rest : List Char) (literals : List (LiteralKind × Literal)) : Prop where
  placed : ∀ literal ∈ literals, Placed cs rest literal.2
  ordered : literals.Pairwise Before

theorem InOrder.append {cs behind rest : List Char} {literals more : List (LiteralKind × Literal)}
    (h : InOrder cs behind literals) (hmore : InOrder behind rest more) (hrest : rest <:+ behind)
    (hbehind : behind <:+ cs) : InOrder cs rest (literals ++ more) := by
  refine ⟨fun literal hliteral => ?_, List.pairwise_append.2 ⟨h.ordered, hmore.ordered, ?_⟩⟩
  · rcases List.mem_append.1 hliteral with hliteral | hliteral
    · exact (h.placed literal hliteral).mono List.suffix_rfl hrest
    · exact (hmore.placed literal hliteral).mono hbehind List.suffix_rfl
  · intro first hfirst second hsecond
    exact (hmore.placed second hsecond).bounds.2.trans (h.placed first hfirst).bounds.1

/-- The literals of a pair are itself or those inside it. -/
theorem literals_cases (kind : LiteralKind) (rule : Rule) (text : List Char) (after : Nat)
    (children : List Pair) :
    (rule = .integer ∧
        (Pair.mk rule text after children).literals kind = [(kind, ⟨text, after⟩)]) ∨
      ∃ inner, (Pair.mk rule text after children).literals kind = literalsOf inner children := by
  cases rule with
  | integer => exact .inl ⟨rfl, rfl⟩
  | binary => exact .inr ⟨.byte, rfl⟩
  | _ => exact .inr ⟨kind, rfl⟩

theorem Laid.inOrder {cs rest : List Char} {pairs : List Pair} (h : Laid cs pairs rest)
    (kind : LiteralKind) : InOrder cs rest (literalsOf kind pairs) := by
  induction h generalizing kind with
  | nil => exact ⟨nofun, .nil⟩
  | @cons rule gap text behind rest children pairs hinteger hchildren hpairs ihchildren ihpairs =>
    have hfirst : InOrder (text ++ behind) behind
        ((Pair.mk rule text behind.length children).literals kind) := by
      rcases literals_cases kind rule text behind.length children with ⟨hrule, heq⟩ | ⟨inner, heq⟩
      · rw [heq]
        refine ⟨fun literal hliteral => ?_, List.pairwise_singleton _ _⟩
        rw [List.mem_singleton.1 hliteral]
        exact ⟨hinteger hrule, [], behind, rfl, rfl, List.suffix_rfl⟩
      · rw [heq]
        exact ihchildren inner
    have hall := hfirst.append (ihpairs kind) hpairs.suffix (List.suffix_append _ _)
    exact ⟨fun literal hliteral => (hall.placed literal hliteral).mono (List.suffix_append _ _)
      List.suffix_rfl, hall.ordered⟩

/-! ## Spans -/

theorem utf8Length_append (cs ds : List Char) :
    utf8Length (cs ++ ds) = utf8Length cs + utf8Length ds := by
  induction cs with
  | nil => exact (Nat.zero_add _).symm
  | cons c cs ih => rw [List.cons_append, utf8Length, utf8Length, ih, Nat.add_assoc]

theorem utf8Length_eq (cs : List Char) : utf8Length cs = (String.ofList cs).utf8ByteSize := by
  induction cs with
  | nil => rfl
  | cons c cs ih =>
    rw [utf8Length, ih, String.ofList_cons, String.utf8ByteSize_append]
    simp

theorem offset_le (text : List Char) (left : Nat) : offset text left ≤ utf8Length text := by
  rw [offset]
  conv_rhs => rw [← List.take_append_drop (text.length - left) text, utf8Length_append]
  exact Nat.le_add_right _ _

theorem span_of_eq {whole before behind : List Char} {literal : Literal}
    (hwhole : whole = before ++ (literal.text ++ behind)) (hafter : literal.after = behind.length) :
    Literal.span whole literal = ⟨utf8Length before, utf8Length (before ++ literal.text)⟩ := by
  have htake : whole.take (whole.length - literal.after) = before ++ literal.text := by
    rw [hwhole, hafter, ← List.append_assoc, List.length_append, Nat.add_sub_cancel,
      List.take_left]
  rw [Literal.span, offset, htake, utf8Length_append, Nat.add_sub_cancel]

/-- Of two literals the one before the other starts first. -/
theorem start_le_of_before {whole : List Char} {first second : LiteralKind × Literal}
    (hfirst : Placed whole [] first.2) (hsecond : Placed whole [] second.2)
    (h : Before first second) :
    (Literal.span whole first.2).start ≤ (Literal.span whole second.2).start := by
  obtain ⟨before, behind, heq, hafter, -⟩ := hfirst.exists_eq
  obtain ⟨before', behind', heq', hafter', -⟩ := hsecond.exists_eq
  have hlength : before.length ≤ before'.length := by
    have hlengths := congrArg List.length (heq.symm.trans heq')
    rw [Before, hafter, hafter'] at h
    simp only [List.length_append] at hlengths
    omega
  obtain ⟨gap, rfl⟩ := List.prefix_of_prefix_length_le ⟨_, heq.symm⟩ ⟨_, heq'.symm⟩ hlength
  rw [span_of_eq heq hafter, span_of_eq heq' hafter']
  exact (utf8Length_append before gap).symm ▸ Nat.le_add_right _ _

end HeaderForms.Grammar
