-- SUMMARY: What each level of the expression grammar reads, and how a level passes to a weaker one.
import HeaderForms.Proofs.Expr.Rendering
import HeaderForms.Proofs.Token.Reads

/-!
# Levels of the expression grammar

A level reads an operand of the next one and goes on behind it as long as one of its operators
follows. So where no such operator follows, what one level reads the weaker ones read too, and a
level of its own is reached only through its operators.

A loop of the grammar stops when its rounds are used up. `ReadsAt` is what a level reads with as
many rounds as it can need, and for the levels that group to the left it leaves the loop open, since
an expression of such a level is the left operand of the next operator.
-/

namespace HeaderForms

/-! ## Next lexemes -/

/-- The level at which the lexeme joins something to the expression in front of it. -/
def Lexeme.joins? : Lexeme → Option Nat
  | .punct .equals | .punct .bang => some 1
  | .keyword .orelse => some 2
  | .keyword .andalso => some 3
  | .punct .equal | .punct .differ | .punct .atMost | .punct .less | .punct .atLeast
  | .punct .greater | .punct .exactEqual | .punct .exactDiffer => some 4
  | .punct .append | .punct .subtract => some 5
  | .punct .plus | .punct .minus | .keyword .bor | .keyword .bxor | .keyword .bsl | .keyword .bsr
  | .keyword .or_ | .keyword .xor => some 6
  | .punct .star | .punct .slash | .keyword .div | .keyword .rem | .keyword .band
  | .keyword .and_ => some 7
  | .punct .colon | .punct .openParen | .punct .hash => some 9
  | .string _ => some 10
  | _ => none

/-- What is ahead joins nothing to an expression of the level. -/
def Follows (level : Nat) (ahead : Option Lexeme) : Prop :=
  ∀ lexeme ∈ ahead, ∀ reach ∈ lexeme.joins?, reach < level

section Follows

variable {level reach : Nat} {ahead : Option Lexeme} {lexeme : Lexeme}

theorem Follows.mono {level' : Nat} (h : Follows level ahead) (hle : level ≤ level') :
    Follows level' ahead :=
  fun lexeme hahead reach hreach => Nat.lt_of_lt_of_le (h lexeme hahead reach hreach) hle

theorem follows_of_joins?_eq_none (h : lexeme.joins? = none) : Follows level (some lexeme) := by
  rintro _ ⟨⟩ reach hreach
  rw [h] at hreach
  cases hreach

theorem follows_of_joins?_eq_some (h : lexeme.joins? = some reach) (hlt : reach < level) :
    Follows level (some lexeme) := by
  rintro _ ⟨⟩ reach' hreach
  rw [h] at hreach
  cases hreach
  exact hlt

theorem Follows.ne_some (h : Follows level ahead) (hjoins : lexeme.joins? = some reach)
    (hle : level ≤ reach) : ahead ≠ some lexeme := by
  rintro rfl
  exact Nat.not_lt.2 hle (h lexeme rfl reach hjoins)

end Follows

namespace Parser

/-- Whatever is selected joins at the level. -/
def Joins {α : Type} (select : Lexeme → Option α) (level : Nat) : Prop :=
  ∀ ⦃lexeme value⦄, select lexeme = some value → lexeme.joins? = some level

theorem Joins.eq_none {α : Type} {select : Lexeme → Option α} {level level' : Nat}
    (hjoins : Joins select level) {ahead : Option Lexeme} (h : Follows level' ahead)
    (hle : level' ≤ level) : ∀ lexeme ∈ ahead, select lexeme = none := by
  intro lexeme hahead
  cases hselect : select lexeme with
  | none => rfl
  | some value => exact absurd hahead (h.ne_some (hjoins hselect) hle)

theorem joins_matchOp? : Joins matchOp? 1 := by
  intro lexeme combine h
  unfold matchOp? at h
  split at h <;> first | rfl | cases h

theorem joins_orelseOp? : Joins orelseOp? 2 := by
  intro lexeme combine h
  unfold orelseOp? at h
  split at h <;> first | rfl | cases h

theorem joins_andalsoOp? : Joins andalsoOp? 3 := by
  intro lexeme combine h
  unfold andalsoOp? at h
  split at h <;> first | rfl | cases h

theorem joins_comparisonOp? : Joins comparisonOp? 4 := by
  intro lexeme op h
  unfold comparisonOp? at h
  split at h <;> first | rfl | cases h

theorem joins_listOp? : Joins listOp? 5 := by
  intro lexeme combine h
  unfold listOp? at h
  split at h <;> first | rfl | cases h

theorem joins_additiveOp? : Joins additiveOp? 6 := by
  intro lexeme op h
  unfold additiveOp? at h
  split at h <;> first | rfl | cases h

theorem joins_multiplicativeOp? : Joins multiplicativeOp? 7 := by
  intro lexeme op h
  unfold multiplicativeOp? at h
  split at h <;> first | rfl | cases h

/-! ## Operators to the right -/

section Right

variable {operator? : Lexeme → Option (Expr → Expr → Expr)} {operand : Parser Expr} {level : Nat}
  {lexemes : List Lexeme} {expr : Expr}

/-- The level reads the lexemes as the expression, with as many rounds as there are lexemes. -/
def ReadsRight (operator? : Lexeme → Option (Expr → Expr → Expr)) (operand : Parser Expr)
    (level : Nat) (lexemes : List Lexeme) (expr : Expr) : Prop :=
  ∀ rounds, lexemes.length ≤ rounds →
    Reads (rightLevel operator? operand rounds) lexemes (Follows level) expr

theorem Reads.readsRight (hjoins : Joins operator? level)
    (h : Reads operand lexemes (Follows (level + 1)) expr) :
    ReadsRight operator? operand level lexemes expr := by
  intro rounds _
  have hweaker : ∀ ahead, Follows level ahead → Follows (level + 1) ahead :=
    fun ahead hahead => hahead.mono (Nat.le_succ level)
  cases rounds with
  | zero => exact h.mono hweaker
  | succ rounds =>
    rw [← List.append_nil lexemes]
    refine h.bind ?_ hweaker
    exact leads_take?_none (fun ahead hahead => hjoins.eq_none hahead (Nat.le_refl level)) Reads.pure

theorem ReadsRight.join {left right : Expr} {lexemes' : List Lexeme} {lexeme : Lexeme}
    {combine : Expr → Expr → Expr} (hjoins : Joins operator? level)
    (hleft : Reads operand lexemes (Follows (level + 1)) left)
    (hselect : operator? lexeme = some combine)
    (hright : ReadsRight operator? operand level lexemes' right) :
    ReadsRight operator? operand level (lexemes ++ lexeme :: lexemes') (combine left right) := by
  intro rounds hrounds
  rw [List.length_append, List.length_cons] at hrounds
  obtain ⟨rounds, rfl⟩ := Nat.exists_eq_succ_of_ne_zero (show rounds ≠ 0 by omega)
  refine hleft.bind (leads_take? hselect ?_) fun _ _ => ?_
  · exact (hright rounds (by omega)).map
  · exact follows_of_joins?_eq_some (hjoins hselect) (Nat.lt_succ_self level)

end Right

/-! ## Comparisons -/

theorem reads_comparisonLevel {operand : Parser Expr} {lexemes : List Lexeme} {expr : Expr}
    (h : Reads operand lexemes (Follows 5) expr) :
    Reads (comparisonLevel operand) lexemes (Follows 4) expr := by
  rw [← List.append_nil lexemes]
  refine h.bind ?_ fun ahead hahead => hahead.mono (by decide)
  exact leads_take?_none (fun ahead hahead => joins_comparisonOp?.eq_none hahead (Nat.le_refl 4))
    Reads.pure

theorem reads_comparisonLevel_join {operand : Parser Expr} {lexemes lexemes' : List Lexeme}
    {left right : Expr} {lexeme : Lexeme} {op : BinaryOp}
    (hleft : Reads operand lexemes (Follows 5) left) (hselect : comparisonOp? lexeme = some op)
    (hright : Reads operand lexemes' (Follows 5) right) :
    Reads (comparisonLevel operand) (lexemes ++ lexeme :: lexemes') (Follows 4)
      (.binaryOp op left right) := by
  refine hleft.bind (leads_take? hselect ?_) fun _ _ => ?_
  · exact (hright.mono fun ahead hahead => hahead.mono (by decide)).map
  · exact follows_of_joins?_eq_some (joins_comparisonOp? hselect) (by decide)

/-! ## Operators to the left -/

section Left

variable {operator? : Lexeme → Option BinaryOp} {operand : Parser Expr} {limit level : Nat}
  {lexemes : List Lexeme} {expr : Expr}

/-- The level goes over the lexemes and on with the expression as its left operand, and no more
rounds are used up than there are lexemes. -/
def ReadsLeft (operator? : Lexeme → Option BinaryOp) (operand : Parser Expr) (limit level : Nat)
    (lexemes : List Lexeme) (expr : Expr) : Prop :=
  ∃ rounds, limit ≤ rounds + lexemes.length ∧
    Leads (leftLevel limit operator? operand) lexemes (Follows (level + 1))
      (leftFrom operator? operand rounds expr)

theorem Reads.readsLeft (h : Reads operand lexemes (Follows (level + 1)) expr) :
    ReadsLeft operator? operand limit level lexemes expr :=
  ⟨limit, Nat.le_add_right limit lexemes.length, Leads.bind h⟩

theorem ReadsLeft.join {left right : Expr} {lexemes' : List Lexeme} {lexeme : Lexeme}
    {op : BinaryOp} (hjoins : Joins operator? level)
    (hleft : ReadsLeft operator? operand limit level lexemes left)
    (hselect : operator? lexeme = some op)
    (hright : Reads operand lexemes' (Follows (level + 1)) right)
    (hlimit : (lexemes ++ lexeme :: lexemes').length ≤ limit) :
    ReadsLeft operator? operand limit level (lexemes ++ lexeme :: lexemes')
      (.binaryOp op left right) := by
  obtain ⟨rounds, hrounds, hleads⟩ := hleft
  rw [List.length_append, List.length_cons] at hlimit
  obtain ⟨rounds, rfl⟩ := Nat.exists_eq_succ_of_ne_zero (show rounds ≠ 0 by omega)
  refine ⟨rounds, by rw [List.length_append, List.length_cons]; omega, ?_⟩
  refine hleads.trans (leads_take? hselect (Leads.bind hright)) fun _ _ => ?_
  exact follows_of_joins?_eq_some (hjoins hselect) (Nat.lt_succ_self level)

theorem ReadsLeft.reads (hjoins : Joins operator? level)
    (h : ReadsLeft operator? operand limit level lexemes expr) :
    Reads (leftLevel limit operator? operand) lexemes (Follows level) expr := by
  obtain ⟨rounds, _, hleads⟩ := h
  rw [← List.append_nil lexemes]
  refine hleads.trans ?_ fun ahead hahead => hahead.mono (Nat.le_succ level)
  cases rounds with
  | zero => exact Reads.pure
  | succ rounds =>
    exact leads_take?_none (fun ahead hahead => hjoins.eq_none hahead (Nat.le_refl level)) Reads.pure

end Left

/-! ## Prefix operators -/

section Signs

variable {operand : Parser Expr} {lexemes : List Lexeme} {expr : Expr}

/-- The prefix level reads the lexemes as the expression, with as many rounds as there are
lexemes. -/
def ReadsPrefixed (operand : Parser Expr) (lexemes : List Lexeme) (expr : Expr) : Prop :=
  ∀ rounds, lexemes.length ≤ rounds →
    Reads (prefixFrom operand rounds) lexemes (Follows 8) expr

theorem prefixOp?_eq_none {lexeme : Lexeme} {reach : Nat} (h : lexeme.opens? = some reach)
    (hreach : 9 ≤ reach) : prefixOp? lexeme = none := by
  cases hselect : prefixOp? lexeme with
  | none => rfl
  | some op =>
    have hsign : lexeme.opens? = some 8 := by
      unfold prefixOp? signOp? at hselect
      split at hselect
      case h_1 | h_2 => rfl
      case h_3 => split at hselect <;> first | rfl | cases hselect
    rw [hsign] at h
    cases h
    exact absurd hreach (by decide)

theorem Reads.readsPrefixed (hopens : Opens 9 lexemes)
    (h : Reads operand lexemes (Follows 9) expr) : ReadsPrefixed operand lexemes expr := by
  intro rounds _
  have hweaker : ∀ ahead, Follows 8 ahead → Follows 9 ahead :=
    fun ahead hahead => hahead.mono (by decide)
  obtain ⟨lexeme, behind, reach, rfl, hlexeme, hreach⟩ := hopens
  cases rounds with
  | zero => exact h.mono hweaker
  | succ rounds =>
    refine leads_take?_none ?_ (h.mono hweaker)
    rintro ahead _ _ ⟨⟩
    exact prefixOp?_eq_none hlexeme hreach

theorem ReadsPrefixed.sign {lexeme : Lexeme} {op : UnaryOp} (hselect : prefixOp? lexeme = some op)
    (h : ReadsPrefixed operand lexemes expr) :
    ReadsPrefixed operand (lexeme :: lexemes) (signed op expr) := by
  intro rounds hrounds
  rw [List.length_cons] at hrounds
  obtain ⟨rounds, rfl⟩ := Nat.exists_eq_succ_of_ne_zero (show rounds ≠ 0 by omega)
  exact leads_take? hselect (h rounds (by omega)).map

end Signs

/-! ## Calls and accesses -/

/-- The level of calls and accesses goes over the lexemes and on with the expression in front, and
no more rounds are used up than there are lexemes. -/
def ReadsAccess (limit : Nat) (nested : Parser Expr) (lexemes : List Lexeme) (expr : Expr) : Prop :=
  ∃ rounds, limit ≤ rounds + lexemes.length ∧
    Leads (postfixLevel limit nested) lexemes (Follows 10) (postfixFrom limit nested rounds expr)

theorem ReadsAccess.reads {limit : Nat} {nested : Parser Expr} {lexemes : List Lexeme} {expr : Expr}
    (h : ReadsAccess limit nested lexemes expr) :
    Reads (postfixLevel limit nested) lexemes (Follows 9) expr := by
  obtain ⟨rounds, _, hleads⟩ := h
  have hne : ∀ lexeme : Lexeme, lexeme.joins? = some 9 → ∀ ahead, Follows 9 ahead →
      ahead ≠ some lexeme :=
    fun lexeme hjoins ahead hahead => hahead.ne_some hjoins (Nat.le_refl 9)
  rw [← List.append_nil lexemes]
  refine hleads.trans ?_ fun ahead hahead => hahead.mono (by decide)
  cases rounds with
  | zero => exact Reads.pure
  | succ rounds =>
    refine leads_eat_ne (hne (.punct .colon) rfl) ?_
    refine leads_atPunct_ne (hne (.punct .openParen) rfl) ?_
    exact leads_eat_ne (hne (.punct .hash) rfl) Reads.pure

/-- One more round goes on behind a call or an access. -/
theorem ReadsAccess.step {limit : Nat} {nested : Parser Expr} {lexemes behind : List Lexeme}
    {lexeme : Lexeme} {base expr : Expr} (h : ReadsAccess limit nested lexemes base)
    (hjoins : lexeme.joins? = some 9)
    (hstep : ∀ rounds, Leads (postfixFrom limit nested (rounds + 1) base) (lexeme :: behind)
      (Follows 10) (postfixFrom limit nested rounds expr))
    (hlimit : (lexemes ++ lexeme :: behind).length ≤ limit) :
    ReadsAccess limit nested (lexemes ++ lexeme :: behind) expr := by
  obtain ⟨rounds, hrounds, hleads⟩ := h
  rw [List.length_append, List.length_cons] at hlimit
  obtain ⟨rounds, rfl⟩ := Nat.exists_eq_succ_of_ne_zero (show rounds ≠ 0 by omega)
  refine ⟨rounds, by rw [List.length_append, List.length_cons]; omega, ?_⟩
  exact hleads.trans (hstep rounds) fun _ _ => follows_of_joins?_eq_some hjoins (by decide)

/-! ## Levels -/

/-- The parser of each level, for expressions of no more than one token over the limit. -/
def levelAt (limit : Nat) : Nat → Parser Expr
  | 0 => exprWithin (limit + 1)
  | 1 => matchLevel (limit + 1) (exprWithin limit)
  | 2 => rightLevel orelseOp? (andalsoLevel (limit + 1) (exprWithin limit)) (limit + 1)
  | 3 => andalsoLevel (limit + 1) (exprWithin limit)
  | 4 => comparisonLevel
      (rightLevel listOp? (additiveLevel (limit + 1) (exprWithin limit)) (limit + 1))
  | 5 => rightLevel listOp? (additiveLevel (limit + 1) (exprWithin limit)) (limit + 1)
  | 6 => additiveLevel (limit + 1) (exprWithin limit)
  | 7 => leftLevel (limit + 1) multiplicativeOp? (prefixLevel (limit + 1) (exprWithin limit))
  | 8 => prefixLevel (limit + 1) (exprWithin limit)
  | 9 => postfixLevel (limit + 1) (exprWithin limit)
  | _ => primary (limit + 1) (exprWithin limit)

/-- What it takes for the level to read the lexemes as the expression. -/
def ReadsAt (limit : Nat) (lexemes : List Lexeme) (expr : Expr) : Nat → Prop
  | 0 => Reads (levelAt limit 0) lexemes (Follows 0) expr
  | 1 => ReadsRight matchOp? (levelAt limit 2) 1 lexemes expr
  | 2 => ReadsRight orelseOp? (levelAt limit 3) 2 lexemes expr
  | 3 => ReadsRight andalsoOp? (levelAt limit 4) 3 lexemes expr
  | 4 => Reads (levelAt limit 4) lexemes (Follows 4) expr
  | 5 => ReadsRight listOp? (levelAt limit 6) 5 lexemes expr
  | 6 => ReadsLeft additiveOp? (levelAt limit 7) (limit + 1) 6 lexemes expr
  | 7 => ReadsLeft multiplicativeOp? (levelAt limit 8) (limit + 1) 7 lexemes expr
  | 8 => ReadsPrefixed (levelAt limit 9) lexemes expr
  | 9 => ReadsAccess (limit + 1) (exprWithin limit) lexemes expr
  | _ => ∀ depth, lexemes.length ≤ depth →
      Reads (primaryWithin (limit + 1) (exprWithin limit) depth) lexemes (Follows 10) expr

namespace ReadsAt

variable {limit level : Nat} {lexemes : List Lexeme} {expr : Expr}

theorem reads (h : ReadsAt limit lexemes expr level) (hlevel : level ≤ 10)
    (hlimit : lexemes.length ≤ limit + 1) :
    Reads (levelAt limit level) lexemes (Follows level) expr := by
  match level with
  | 0 | 4 => exact h
  | 1 | 2 | 3 | 5 | 8 | 10 => exact h (limit + 1) hlimit
  | 6 => exact ReadsLeft.reads joins_additiveOp? h
  | 7 => exact ReadsLeft.reads joins_multiplicativeOp? h
  | 9 => exact ReadsAccess.reads h

/-- What a level reads, the level before it reads without an operator of its own. -/
theorem pred (h : ReadsAt limit lexemes expr (level + 1)) (hlevel : level + 1 ≤ 10)
    (hopens : Opens (level + 1) lexemes) (hlimit : lexemes.length ≤ limit + 1) :
    ReadsAt limit lexemes expr level := by
  have hnext := h.reads hlevel hlimit
  match level with
  | 0 =>
    obtain ⟨lexeme, behind, reach, rfl, hlexeme, hreach⟩ := hopens
    refine leads_eat_ne ?_ (hnext.mono fun ahead hahead => hahead.mono (by decide))
    rintro ahead _ ⟨⟩
    cases hlexeme
    exact absurd hreach (by decide)
  | 1 => exact hnext.readsRight joins_matchOp?
  | 2 => exact hnext.readsRight joins_orelseOp?
  | 3 => exact hnext.readsRight joins_andalsoOp?
  | 4 => exact reads_comparisonLevel hnext
  | 5 => exact hnext.readsRight joins_listOp?
  | 6 | 7 => exact hnext.readsLeft
  | 8 => exact hnext.readsPrefixed hopens
  | 9 => exact ⟨limit + 1, Nat.le_add_right _ _, Leads.bind hnext⟩

theorem of_le (h : ReadsAt limit lexemes expr level) (hlevel : level ≤ 10)
    (hopens : Opens level lexemes) (hlimit : lexemes.length ≤ limit + 1) {level' : Nat}
    (hle : level' ≤ level) : ReadsAt limit lexemes expr level' := by
  induction level with
  | zero => rwa [Nat.le_zero.1 hle]
  | succ level ih =>
    obtain rfl | hlt := Nat.eq_or_lt_of_le hle
    · exact h
    · exact ih (h.pred hlevel hopens hlimit) (Nat.le_of_succ_le hlevel)
        (hopens.mono (Nat.le_succ level)) (Nat.le_of_lt_succ hlt)

end ReadsAt

end Parser

end HeaderForms
