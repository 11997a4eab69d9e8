-- SUMMARY: How the tokens that a parser takes are nested.
import HeaderForms.Proofs.Token.Nesting
import HeaderForms.Proofs.Token.Parser

/-!
# Balance of parsers

What a parser takes leads from what is open in front of it to what is open behind, and its steps add
up. A balanced parser closes what it opens. One that takes items with commas between them does so
only inside a bracket or a block, and one that takes the rest of a bracketed construct closes the
bracket that it begins in.
-/

namespace HeaderForms.Parser

open HeaderForms.Expansion (isNeutral closes)
open HeaderForms.Nesting (Nests Steps steps_neutral steps_comma steps_closing)

variable {α β : Type}

/-- What the parser takes from the tokens leads from `before` to where its value says. -/
def TakesFrom (grammar : Grammar) (tokens : List Token) (parser : Parser α) (before : List Lexeme)
    (after : α → List Lexeme) : Prop :=
  ∀ ⦃value rest⦄, parser tokens = .ok (value, rest) →
    ∃ taken, tokens = taken ++ rest ∧ Nests grammar before (after value) taken

def Takes (grammar : Grammar) (parser : Parser α) (before : List Lexeme)
    (after : α → List Lexeme) : Prop :=
  ∀ tokens, TakesFrom grammar tokens parser before after

/-- The parser closes what it opens and nothing else. -/
def Balanced (grammar : Grammar) (parser : Parser α) : Prop :=
  ∀ stack, Takes grammar parser stack fun _ => stack

/-- The parser closes what it opens if it begins inside a bracket or a block. -/
def BalancedInside (grammar : Grammar) (parser : Parser α) : Prop :=
  ∀ closer stack, Takes grammar parser (closer :: stack) fun _ => closer :: stack

/-- The parser closes what it begins in. -/
def ClosesLevel (grammar : Grammar) (closer : Lexeme) (parser : Parser α) : Prop :=
  ∀ stack, Takes grammar parser (closer :: stack) fun _ => stack

variable {grammar : Grammar} {before after stack : List Lexeme} {parser : Parser α}
  {tokens : List Token} {between : α → List Lexeme} {final : β → List Lexeme} {lexeme : Lexeme}
  {mark : Punct}

theorem Balanced.inside (h : Balanced grammar parser) : BalancedInside grammar parser :=
  fun closer stack => h (closer :: stack)

/-! ## Composition -/

theorem takes_pure {value : α} : Takes grammar (pure value) stack fun _ => stack := by
  intro tokens value' rest hpure
  cases hpure
  exact ⟨[], rfl, .nil⟩

theorem TakesFrom.bind {next : α → Parser β} (h : TakesFrom grammar tokens parser before between)
    (hnext : ∀ value, Takes grammar (next value) (between value) final) :
    TakesFrom grammar tokens (parser >>= next) before final := by
  intro value rest hbind
  obtain ⟨first, behind, hfirst, hrest⟩ := bind_eq_ok.1 hbind
  obtain ⟨taken, rfl, hnests⟩ := h hfirst
  obtain ⟨taken', rfl, hnests'⟩ := hnext first behind hrest
  exact ⟨taken ++ taken', (List.append_assoc ..).symm, hnests.append hnests'⟩

theorem Takes.bind {next : α → Parser β} (h : Takes grammar parser before between)
    (hnext : ∀ value, Takes grammar (next value) (between value) final) :
    Takes grammar (parser >>= next) before final :=
  fun tokens => (h tokens).bind hnext

theorem Takes.map {f : α → β} (h : Takes grammar parser before fun _ => after) :
    Takes grammar (f <$> parser) before fun _ => after := by
  rw [← bind_pure_comp]
  exact h.bind fun _ => takes_pure

theorem takes_fail {fault : SourceFault} :
    Takes grammar (fail fault : Parser α) before between := by
  intro tokens value rest hfail
  cases hfail

theorem takes_unexpected {wanted : Expected} :
    Takes grammar (unexpected wanted : Parser α) before between := by
  intro tokens value rest hfail
  cases hfail

/-! ## Looking ahead -/

theorem takesFrom_peek {next : Option Lexeme → Parser β}
    (h : TakesFrom grammar tokens (next (tokens.head?.map (·.lexeme))) before final) :
    TakesFrom grammar tokens (peek >>= next) before final :=
  h

theorem takesFrom_peekTwo {next : Option Lexeme × Option Lexeme → Parser β}
    (h : TakesFrom grammar tokens
      (next (tokens.head?.map (·.lexeme), tokens.tail.head?.map (·.lexeme))) before final) :
    TakesFrom grammar tokens (peekTwo >>= next) before final :=
  h

theorem balanced_atPunct : Balanced grammar (atPunct mark) := by
  intro stack tokens value rest hat
  cases hat
  exact ⟨[], rfl, .nil⟩

/-! ## Single tokens -/

theorem takesFrom_skip {token : Token} (h : Steps grammar before after token.lexeme) :
    TakesFrom grammar (token :: tokens) (skip 1) before fun _ => after := by
  intro value rest hskip
  cases hskip
  exact ⟨[token], rfl, h token.line⟩

theorem takesFrom_skipTwo {first second : Token} (h : Steps grammar before stack first.lexeme)
    (h' : Steps grammar stack after second.lexeme) :
    TakesFrom grammar (first :: second :: tokens) (skip 2) before fun _ => after := by
  intro value rest hskip
  cases hskip
  exact ⟨[first, second], rfl, (h first.line).append (h' second.line)⟩

/-- Whatever the selection accepts opens and closes nothing. -/
def SelectsNeutral (select : Lexeme → Option α) : Prop :=
  ∀ ⦃lexeme value⦄, select lexeme = some value → isNeutral lexeme = true

theorem balanced_take? {select : Lexeme → Option α} (h : SelectsNeutral select) :
    Balanced grammar (take? select) := by
  intro stack tokens found rest htake
  cases tokens with
  | nil =>
    cases htake
    exact ⟨[], rfl, .nil⟩
  | cons token tokens =>
    simp only [take?] at htake
    split at htake
    case h_1 value hselect =>
      cases htake
      exact ⟨[token], rfl, steps_neutral (h hselect) token.line⟩
    case h_2 =>
      cases htake
      exact ⟨[], rfl, .nil⟩

theorem balanced_take {wanted : Expected} {select : Lexeme → Option α} (h : SelectsNeutral select) :
    Balanced grammar (take wanted select) := by
  intro stack
  refine (balanced_take? h stack).bind fun found => ?_
  cases found with
  | none => exact takes_unexpected
  | some value => exact takes_pure

theorem balanced_takeAny {fault : SourceFault} {select : Lexeme → Option α}
    (h : SelectsNeutral select) : Balanced grammar (takeAny fault select) := by
  intro stack tokens value rest htake
  cases tokens with
  | nil => cases htake
  | cons token tokens =>
    simp only [takeAny] at htake
    split at htake
    case h_1 hselect =>
      cases htake
      exact ⟨[token], rfl, steps_neutral (h hselect) token.line⟩
    case h_2 => cases htake

/-- A lexeme that may be there takes its step if it is. -/
theorem takes_eat (h : Steps grammar before after lexeme) :
    Takes grammar (eat lexeme) before fun eaten => bif eaten then after else before := by
  intro tokens eaten rest heat
  cases eaten with
  | true =>
    obtain ⟨line, rfl⟩ := exists_of_eat heat
    exact ⟨[⟨lexeme, line⟩], rfl, h line⟩
  | false =>
    obtain rfl := eq_of_eat heat
    exact ⟨[], rfl, .nil⟩

theorem takes_eatPunct (h : Steps grammar before after (.punct mark)) :
    Takes grammar (eatPunct mark) before fun eaten => bif eaten then after else before :=
  takes_eat h

theorem takes_eatKeyword {word : Keyword} (h : Steps grammar before after (.keyword word)) :
    Takes grammar (eatKeyword word) before fun eaten => bif eaten then after else before :=
  takes_eat h

theorem takes_expectPunct (h : Steps grammar before after (.punct mark)) :
    Takes grammar (expectPunct mark) before fun _ => after := by
  refine (takes_eatPunct h).bind fun eaten => ?_
  cases eaten with
  | true => exact takes_pure
  | false => exact takes_unexpected

theorem takes_expectKeyword {word : Keyword} (h : Steps grammar before after (.keyword word)) :
    Takes grammar (expectKeyword word) before fun _ => after := by
  refine (takes_eatKeyword h).bind fun eaten => ?_
  cases eaten with
  | true => exact takes_pure
  | false => exact takes_unexpected

/-! ## Names and numbers -/

theorem selectsNeutral_atomName? : SelectsNeutral atomName? := by
  intro lexeme name h
  unfold atomName? at h
  split at h <;> first | rfl | cases h

theorem selectsNeutral_varName? : SelectsNeutral varName? := by
  intro lexeme name h
  unfold varName? at h
  split at h <;> first | rfl | cases h

theorem selectsNeutral_natural? : SelectsNeutral natural? := by
  intro lexeme value h
  unfold natural? at h
  split at h <;> first | rfl | cases h

theorem balanced_expectAtom : Balanced grammar expectAtom :=
  balanced_take selectsNeutral_atomName?

theorem balanced_expectVar : Balanced grammar expectVar :=
  balanced_take selectsNeutral_varName?

theorem balanced_expectInteger : Balanced grammar expectInteger := by
  intro stack
  refine (takes_eatPunct (steps_neutral rfl)).bind fun negative => ?_
  rw [Bool.cond_self]
  exact (balanced_take selectsNeutral_natural? stack).bind fun value => takes_pure

theorem balanced_expectArity : Balanced grammar expectArity := by
  intro stack
  refine (balanced_expectInteger stack).bind fun arity => ?_
  dsimp only
  split
  case isTrue => exact (takes_fail : Takes grammar _ stack fun _ => stack).bind fun _ => takes_pure
  case isFalse => exact takes_pure

/-! ## Repetition -/

theorem takes_separatedFrom {separator : Punct} {item : Parser α}
    (hseparator : Steps grammar stack stack (.punct separator))
    (h : Takes grammar item stack fun _ => stack) (limit : Nat) (found : List α) :
    Takes grammar (separatedFrom separator item limit found) stack fun _ => stack := by
  induction limit generalizing found with
  | zero => exact takes_pure
  | succ limit ih =>
    refine h.bind fun value => (takes_eatPunct hseparator).bind fun eaten => ?_
    cases eaten with
    | true => exact ih (value :: found)
    | false => exact takes_pure

theorem takes_separated {separator : Punct} {item : Parser α}
    (hseparator : Steps grammar stack stack (.punct separator))
    (h : Takes grammar item stack fun _ => stack) (limit : Nat) :
    Takes grammar (separated limit separator item) stack fun _ => stack :=
  takes_separatedFrom hseparator h limit []

/-- Items with commas between them stay inside the bracket that they are in. -/
theorem balancedInside_separated {item : Parser α} (h : BalancedInside grammar item) (limit : Nat) :
    BalancedInside grammar (separated limit .comma item) :=
  fun closer stack => takes_separated steps_comma (h closer stack) limit

theorem closesLevel_delimited {close : Punct} {item : Parser α}
    (hclose : closes (.punct close) = true) (h : BalancedInside grammar item) (limit : Nat) :
    ClosesLevel grammar (.punct close) (delimited limit close item) := by
  intro stack
  refine (takes_eatPunct (steps_closing hclose)).bind fun eaten => ?_
  cases eaten with
  | true => exact takes_pure
  | false =>
    refine (balancedInside_separated h limit _ stack).bind fun items => ?_
    exact (takes_expectPunct (steps_closing hclose)).bind fun _ => takes_pure

end HeaderForms.Parser
