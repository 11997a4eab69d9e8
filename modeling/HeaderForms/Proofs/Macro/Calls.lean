-- SUMMARY: Calls in place of macro uses: which question marks go, and that every other token stays.
import HeaderForms.Macro.Calls
import HeaderForms.Proofs.Macro.Written

/-!
# Calls in place of macro uses

From its front, a macro body falls into pieces: a use with its question mark, an argument with the
two in front of it, and otherwise a single token. Of each piece one token is kept, and the calls are
the kept tokens with marks and names put around some of them. No use starts in them any more, so
there is nothing left to make a call of.
-/

namespace HeaderForms.MacroUse

variable {tokens behind : List Token} {mark next : Token}

theorem name?_of_question (h : next.isPunct .question) : next.name? = none := by
  rw [Token.name?, Token.isPunct_iff.1 h]

/-! ## Where uses start -/

/-- A question mark has a name behind it, or another question mark with a token behind that. -/
inductive Starts : List Token → Prop where
  | use {mark token : Token} {name : String} {behind : List Token}
    (hmark : mark.isPunct .question) (hname : token.name? = some name) :
    Starts (mark :: token :: behind)
  | text {mark second argument : Token} {behind : List Token}
    (hmark : mark.isPunct .question) (hsecond : second.isPunct .question) :
    Starts (mark :: second :: argument :: behind)

/-- No use starts anywhere in the tokens. -/
def UseFree (tokens : List Token) : Prop :=
  ∀ behind, behind <:+ tokens → ¬ Starts behind

theorem not_starts_of_ne (h : mark.isPunct .question = false) : ¬ Starts (mark :: behind) := by
  intro hstarts
  cases hstarts with
  | use hmark => simp [h] at hmark
  | text hmark => simp [h] at hmark

/-- A question mark starts nothing in front of a token that is neither a name nor another one. -/
theorem not_starts_of_next (hname : next.name? = none) (hnext : next.isPunct .question = false) :
    ¬ Starts (mark :: next :: behind) := by
  intro hstarts
  cases hstarts with
  | use _ hnamed => simp [hname] at hnamed
  | text _ hsecond => simp [hnext] at hsecond

/-- Two question marks at the end start nothing. -/
theorem not_starts_pair (hnext : next.isPunct .question) : ¬ Starts [mark, next] := by
  intro hstarts
  cases hstarts with
  | use _ hnamed => simp [name?_of_question hnext] at hnamed

theorem useFree_nil : UseFree [] := by
  intro behind hbehind
  rw [List.suffix_nil.1 hbehind]
  exact nofun

theorem useFree_cons : UseFree (mark :: tokens) ↔ ¬ Starts (mark :: tokens) ∧ UseFree tokens := by
  simp [UseFree, List.suffix_cons_iff, forall_eq_or_imp]

theorem useFree_singleton : UseFree [mark] :=
  useFree_cons.2 ⟨nofun, useFree_nil⟩

theorem UseFree.cons (h : UseFree tokens) (hmark : mark.isPunct .question = false) :
    UseFree (mark :: tokens) :=
  useFree_cons.2 ⟨not_starts_of_ne hmark, h⟩

theorem useFree_emptyArguments (line : Nat) (h : UseFree tokens) :
    UseFree (emptyArguments line behind ++ tokens) := by
  unfold emptyArguments
  split
  case isTrue => exact h
  case isFalse => exact (h.cons rfl).cons rfl

/-- The parenthesis behind an argument keeps it from starting a use. -/
theorem useFree_stringifyCall (argument : Token) (line : Nat) (h : UseFree tokens) :
    UseFree (stringifyCall argument line ++ tokens) := by
  have hclosed : UseFree (⟨.punct .closeParen, line⟩ :: ⟨.punct .closeParen, line⟩ :: tokens) :=
    (h.cons rfl).cons rfl
  have hargument := useFree_cons.2 ⟨@not_starts_of_next _ argument _ rfl rfl, hclosed⟩
  exact (((((hargument.cons rfl).cons rfl).cons rfl).cons rfl).cons rfl).cons rfl

/-! ## Calls without uses -/

theorem toCalls_cons_of_ne (h : mark.isPunct .question = false) :
    toCalls (mark :: tokens) = mark :: toCalls tokens := by
  rw [toCalls.eq_def]
  simp only [h, Bool.false_eq_true, if_false]

theorem useFree_toCalls (tokens : List Token) : UseFree (toCalls tokens) := by
  fun_induction toCalls tokens with
  | case1 => exact useFree_nil
  | case2 => exact useFree_singleton
  | case3 mark _ next hnext => exact useFree_cons.2 ⟨not_starts_pair hnext, useFree_singleton⟩
  | case4 mark _ _ _ argument _ ih => exact useFree_stringifyCall argument mark.line ih
  | case5 mark _ _ _ _ _ _ ih => exact (useFree_emptyArguments mark.line ih).cons rfl
  | case6 mark _ next _ hnext hname ih =>
    rw [Bool.not_eq_true] at hnext
    rw [toCalls_cons_of_ne hnext] at ih ⊢
    exact useFree_cons.2 ⟨not_starts_of_next hname hnext, ih⟩
  | case7 mark _ hmark ih => exact ih.cons (by simpa using hmark)

/-- Tokens without uses stay as they are. -/
theorem toCalls_of_useFree (h : UseFree tokens) : toCalls tokens = tokens := by
  fun_induction toCalls tokens with
  | case1 => rfl
  | case2 => rfl
  | case3 => rfl
  | case4 _ hmark _ hsecond => exact absurd (.text hmark hsecond) (useFree_cons.1 h).1
  | case5 _ hmark _ _ _ _ hname => exact absurd (.use hmark hname) (useFree_cons.1 h).1
  | case6 _ _ _ _ _ _ ih => rw [ih (useFree_cons.1 h).2]
  | case7 _ _ _ ih => rw [ih (useFree_cons.1 h).2]

/-! ## Pieces -/

inductive Piece where
  | plain (token : Token)
  /-- `??argument` -/
  | text (mark second argument : Token)
  /-- `?NAME`, and whether it has an argument list. -/
  | use (mark token : Token) (name : String) (hasArguments : Bool)

namespace Piece

/-- The question marks that go. -/
def marks : Piece → List Token
  | plain _ => []
  | text mark second _ => [mark, second]
  | use mark _ _ _ => [mark]

/-- The token that they stand in front of. -/
def token : Piece → Token
  | plain token => token
  | text _ _ argument => argument
  | use _ token _ _ => token

/-- What is kept of it. -/
def kept : Piece → Token
  | plain token => token
  | text _ _ argument => argument
  | use mark _ name _ => ⟨.atom name, mark.line⟩

/-- What is put in front of it. -/
def front : Piece → List Token
  | text mark _ _ =>
    [⟨.atom "hdrinc", mark.line⟩, ⟨.punct .colon, mark.line⟩, ⟨.atom "stringify", mark.line⟩,
      ⟨.punct .openParen, mark.line⟩, ⟨.atom "quote", mark.line⟩, ⟨.punct .openParen, mark.line⟩]
  | _ => []

/-- What is put behind it. -/
def back : Piece → List Token
  | plain _ => []
  | text mark _ _ => [⟨.punct .closeParen, mark.line⟩, ⟨.punct .closeParen, mark.line⟩]
  | use mark _ _ hasArguments =>
    if hasArguments then [] else [⟨.punct .openParen, mark.line⟩, ⟨.punct .closeParen, mark.line⟩]

/-- The piece as it stands in the body. -/
def written (piece : Piece) : List Token :=
  piece.marks ++ [piece.token]

/-- The piece as it stands in the calls. -/
def calls (piece : Piece) : List Token :=
  piece.front ++ piece.kept :: piece.back

/-- Only question marks go, and only a name is changed: the name of a use is an atom. -/
structure Keeps (piece : Piece) : Prop where
  marks : ∀ mark ∈ piece.marks, mark.isPunct .question
  kept : piece.kept = piece.token ∨
    ∃ name, piece.token.name? = some name ∧ piece.kept.lexeme = .atom name

end Piece

/-- The pieces of a body from its front on. A question mark is a piece of its own only where no use
starts. -/
inductive Cuts : List Token → List Piece → Prop where
  | nil : Cuts [] []
  | plain {token : Token} {behind : List Token} {pieces : List Piece}
    (hstarts : ¬ Starts (token :: behind)) (hbehind : Cuts behind pieces) :
    Cuts (token :: behind) (.plain token :: pieces)
  | text {mark second argument : Token} {behind : List Token} {pieces : List Piece}
    (hmark : mark.isPunct .question) (hsecond : second.isPunct .question)
    (hbehind : Cuts behind pieces) :
    Cuts (mark :: second :: argument :: behind) (.text mark second argument :: pieces)
  | use {mark token : Token} {name : String} {behind : List Token} {pieces : List Piece}
    (hmark : mark.isPunct .question) (hname : token.name? = some name)
    (hbehind : Cuts behind pieces) :
    Cuts (mark :: token :: behind)
      (.use mark token name (behind.head?.any (·.isPunct .openParen)) :: pieces)

namespace Cuts

variable {pieces : List Piece}

theorem eq_written (h : Cuts tokens pieces) : tokens = pieces.flatMap Piece.written := by
  induction h with
  | nil => rfl
  | plain _ _ ih | text _ _ _ ih | use _ _ _ ih =>
    rw [List.flatMap_cons, ← ih]
    rfl

theorem keeps (h : Cuts tokens pieces) : ∀ piece ∈ pieces, piece.Keeps := by
  induction h with
  | nil => exact List.forall_mem_nil _
  | plain _ _ ih =>
    refine List.forall_mem_cons.2 ⟨⟨List.forall_mem_nil _, .inl rfl⟩, ih⟩
  | text hmark hsecond _ ih =>
    refine List.forall_mem_cons.2 ⟨⟨?_, .inl rfl⟩, ih⟩
    exact List.forall_mem_cons.2 ⟨hmark, List.forall_mem_singleton.2 hsecond⟩
  | use hmark hname _ ih =>
    refine List.forall_mem_cons.2 ⟨⟨List.forall_mem_singleton.2 hmark, .inr ?_⟩, ih⟩
    exact ⟨_, hname, rfl⟩

/-- A question mark is not a name, so no token starts both a use and the text of an argument. -/
theorem unique {other : List Piece} (h : Cuts tokens pieces) (hother : Cuts tokens other) :
    other = pieces := by
  induction h generalizing other with
  | nil =>
    cases hother
    rfl
  | plain hstarts _ ih =>
    cases hother with
    | plain _ hbehind => rw [ih hbehind]
    | text hmark hsecond => exact absurd (.text hmark hsecond) hstarts
    | use hmark hname => exact absurd (.use hmark hname) hstarts
  | text hmark hsecond _ ih =>
    cases hother with
    | plain hstarts => exact absurd (.text hmark hsecond) hstarts
    | text _ _ hbehind => rw [ih hbehind]
    | use _ hname => cases (name?_of_question hsecond).symm.trans hname
  | use hmark hname _ ih =>
    cases hother with
    | plain hstarts => exact absurd (.use hmark hname) hstarts
    | text _ hsecond => cases (name?_of_question hsecond).symm.trans hname
    | use _ hother hbehind =>
      cases hname.symm.trans hother
      rw [ih hbehind]

end Cuts

theorem calls_use (mark token : Token) (name : String) (behind : List Token) :
    (Piece.use mark token name (behind.head?.any (·.isPunct .openParen))).calls =
      ⟨.atom name, mark.line⟩ :: emptyArguments mark.line behind :=
  rfl

/-- The calls are those of the pieces. -/
theorem exists_cuts (tokens : List Token) :
    ∃ pieces, Cuts tokens pieces ∧ toCalls tokens = pieces.flatMap Piece.calls := by
  fun_induction toCalls tokens with
  | case1 => exact ⟨[], .nil, rfl⟩
  | case2 mark => exact ⟨[.plain mark], .plain nofun .nil, rfl⟩
  | case3 mark _ next hnext =>
    exact ⟨[.plain mark, .plain next], .plain (not_starts_pair hnext) (.plain nofun .nil), rfl⟩
  | case4 mark hmark second hsecond argument behind ih =>
    obtain ⟨pieces, hcuts, heq⟩ := ih
    refine ⟨.text mark second argument :: pieces, .text hmark hsecond hcuts, ?_⟩
    rw [heq]
    rfl
  | case5 mark hmark token behind _ name hname ih =>
    obtain ⟨pieces, hcuts, heq⟩ := ih
    refine ⟨_, .use hmark hname hcuts, ?_⟩
    rw [List.flatMap_cons, calls_use, heq, List.cons_append]
  | case6 mark _ next behind hnext hname ih =>
    obtain ⟨pieces, hcuts, heq⟩ := ih
    refine ⟨.plain mark :: pieces, .plain (not_starts_of_next hname (by simpa using hnext)) hcuts, ?_⟩
    rw [heq]
    rfl
  | case7 token behind htoken ih =>
    obtain ⟨pieces, hcuts, heq⟩ := ih
    refine ⟨.plain token :: pieces, .plain (not_starts_of_ne (by simpa using htoken)) hcuts, ?_⟩
    rw [heq]
    rfl

theorem kept_sublist (pieces : List Piece) :
    (pieces.map Piece.kept).Sublist (pieces.flatMap Piece.calls) := by
  induction pieces with
  | nil => exact .slnil
  | cons piece pieces ih =>
    have hpiece : [piece.kept].Sublist piece.calls :=
      (List.singleton_sublist.2 (List.mem_append_right _ List.mem_cons_self))
    exact hpiece.append ih

/-! ## Calls -/

/-- In the calls no use starts, so they are their own calls. The body has one way to be cut into
pieces: less the question marks that go, its tokens stand in the calls in their order, names of uses
as atoms, and all else in the calls is put around the token of a piece. -/
theorem toCalls_keeps (tokens : List Token) :
    UseFree (toCalls tokens) ∧ toCalls (toCalls tokens) = toCalls tokens ∧
    ∃ pieces, Cuts tokens pieces ∧ (∀ other, Cuts tokens other → other = pieces) ∧
      (∀ piece ∈ pieces, piece.Keeps) ∧ tokens = pieces.flatMap Piece.written ∧
      toCalls tokens = pieces.flatMap Piece.calls ∧
      (pieces.map Piece.kept).Sublist (toCalls tokens) := by
  have hfree := useFree_toCalls tokens
  obtain ⟨pieces, hcuts, hcalls⟩ := exists_cuts tokens
  refine ⟨hfree, toCalls_of_useFree hfree, pieces, hcuts, fun other => hcuts.unique, hcuts.keeps,
    hcuts.eq_written, hcalls, ?_⟩
  rw [hcalls]
  exact kept_sublist pieces

end HeaderForms.MacroUse
