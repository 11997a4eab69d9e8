-- SUMMARY: What each level of the type grammar reads, and how a level passes to a weaker one.
import HeaderForms.Proofs.Token.Reads
import HeaderForms.Proofs.TypeExpr.Rendering

/-!
# Levels of the type grammar

The type grammar has few levels: a union of alternatives, an alternative, which is a range or an
annotated type as well, and a primary type. Where what may follow a type joins nothing to it, what
one level reads the weaker ones read too, unless it begins as an annotated type does.
-/

namespace HeaderForms

open HeaderForms.Parser HeaderForms.Render

/-! ## Next lexemes -/

/-- The level at which the lexeme joins something to the type in front of it. -/
def Lexeme.joinsType? : Lexeme → Option Nat
  | .punct .bar => some 1
  | .punct .range | .punct .doubleColon => some 2
  | .punct .openParen | .punct .colon => some 3
  | _ => none

/-- What is ahead joins nothing to a type at the position. -/
def TypeFollows (position : Nat) (ahead : Option Lexeme) : Prop :=
  ∀ lexeme ∈ ahead, ∀ reach ∈ lexeme.joinsType?, reach < position

section Follows

variable {position reach : Nat} {ahead : Option Lexeme} {lexeme : Lexeme}

theorem TypeFollows.mono {position' : Nat} (h : TypeFollows position ahead)
    (hle : position ≤ position') : TypeFollows position' ahead :=
  fun lexeme hahead reach hreach => Nat.lt_of_lt_of_le (h lexeme hahead reach hreach) hle

theorem typeFollows_of_none (h : lexeme.joinsType? = none) :
    TypeFollows position (some lexeme) := by
  rintro _ ⟨⟩ reach hreach
  rw [h] at hreach
  cases hreach

theorem typeFollows_of_some (h : lexeme.joinsType? = some reach) (hlt : reach < position) :
    TypeFollows position (some lexeme) := by
  rintro _ ⟨⟩ reach' hreach
  rw [h] at hreach
  cases hreach
  exact hlt

/-- No lexeme joins something at the level of unions. -/
theorem TypeFollows.zero (h : TypeFollows 1 ahead) : TypeFollows 0 ahead := by
  intro lexeme hahead reach hreach
  have hlt := h lexeme hahead reach hreach
  unfold Lexeme.joinsType? at hreach
  split at hreach <;> cases hreach <;> omega

theorem TypeFollows.ne_some (h : TypeFollows position ahead) (hjoins : lexeme.joinsType? = some reach)
    (hle : position ≤ reach) : ahead ≠ some lexeme := by
  rintro rfl
  exact Nat.not_lt.2 hle (h lexeme rfl reach hjoins)

end Follows

/-! ## Levels -/

namespace Parser

/-- The parser of each position, for types of no more than one token over the limit. -/
def typeLevelAt (limit : Nat) : Nat → Parser TypeExpr
  | 0 => typeWithin (limit + 1)
  | 1 | 2 => alternativeType (limit + 1) (typeWithin limit)
  | _ => primaryType (limit + 1) (typeWithin limit)

/-- A variable in front of more lexemes is the name of an annotated type or begins a range, and so
nothing is behind it in a primary type. -/
def Plain (lexemes : List Lexeme) : Prop :=
  ∀ name behind, lexemes = .var name :: behind → behind = []

variable {limit : Nat} {nested : Parser TypeExpr} {lexemes : List Lexeme} {type : TypeExpr}

/-- An alternative that is no annotated type is a primary type, or a range that begins with one. -/
theorem leads_alternativeType {lexeme : Lexeme} {follow : Option Lexeme → Prop}
    {onward : Parser TypeExpr} (hne : ∀ name, lexeme = .var name → ∀ ahead, follow ahead →
      lexemes.head?.or ahead ≠ some (.punct .doubleColon))
    (h : Leads (do
      let low ← primaryType limit nested
      if ← eatPunct .range then return .range low (← primaryType limit nested)
      return low) (lexeme :: lexemes) follow onward) :
    Leads (alternativeType limit nested) (lexeme :: lexemes) follow onward := by
  refine leads_peekTwo_eq (fun ahead hahead => ?_) h
  split
  case h_1 name heq =>
    obtain ⟨hname, hcolons⟩ := Prod.mk.inj heq
    exact absurd hcolons (hne name (Option.some.inj hname) ahead hahead)
  case h_2 => rfl

/-- A primary type is an alternative where no range and no annotation goes on behind it. -/
theorem reads_alternativeType (hplain : Plain lexemes) (hpos : 0 < lexemes.length)
    (h : Reads (primaryType limit nested) lexemes (TypeFollows 3) type) :
    Reads (alternativeType limit nested) lexemes (TypeFollows 2) type := by
  obtain ⟨lexeme, behind, rfl⟩ := List.exists_cons_of_length_pos hpos
  refine leads_alternativeType ?_ ?_
  · rintro name rfl ahead hahead
    rw [hplain name behind rfl]
    exact hahead.ne_some rfl (Nat.le_refl 2)
  · rw [← List.append_nil (lexeme :: behind)]
    refine h.bind (leads_eat_ne ?_ Reads.pure) fun ahead hahead => hahead.mono (by decide)
    exact fun ahead hahead => hahead.ne_some rfl (Nat.le_refl 2)

/-- An alternative that no other follows is a type. -/
theorem reads_typeWithin (h : Reads (alternativeType (limit + 1) (typeWithin limit)) lexemes
    (TypeFollows 1) type) : Reads (typeWithin (limit + 1)) lexemes (TypeFollows 0) type := by
  have hseparated : Reads (separated (limit + 1) .bar
      (alternativeType (limit + 1) (typeWithin limit))) lexemes (TypeFollows 0) [type] := by
    rw [← List.append_nil lexemes]
    refine h.bind (leads_eat_ne ?_ Reads.pure) fun ahead hahead => hahead.mono (by decide)
    exact fun ahead hahead => hahead.ne_some rfl (by decide)
  exact hseparated.map

/-- What is read at a position is read at the one before it. -/
theorem Reads.pred {level : Nat} (hlevel : level < 3) (hplain : level = 2 → Plain lexemes)
    (hpos : 0 < lexemes.length)
    (h : Reads (typeLevelAt limit (level + 1)) lexemes (TypeFollows (level + 1)) type) :
    Reads (typeLevelAt limit level) lexemes (TypeFollows level) type := by
  match level with
  | 0 => exact reads_typeWithin h
  | 1 => exact h.mono fun ahead hahead => hahead.mono (Nat.le_succ 1)
  | 2 => exact reads_alternativeType (hplain rfl) hpos h

theorem Reads.of_le {level position : Nat} (hle : position ≤ level) (hlevel : level ≤ 3)
    (hplain : level = 3 → Plain lexemes) (hpos : 0 < lexemes.length)
    (h : Reads (typeLevelAt limit level) lexemes (TypeFollows level) type) :
    Reads (typeLevelAt limit position) lexemes (TypeFollows position) type := by
  induction level with
  | zero => rwa [Nat.le_zero.1 hle]
  | succ level ih =>
    obtain rfl | hlt := Nat.eq_or_lt_of_le hle
    · exact h
    · refine ih (Nat.le_of_lt_succ hlt) (Nat.le_of_succ_le hlevel) ?_ ?_
      · rintro rfl
        omega
      · exact h.pred hlevel (fun heq => hplain (congrArg Nat.succ heq)) hpos

end Parser

end HeaderForms
