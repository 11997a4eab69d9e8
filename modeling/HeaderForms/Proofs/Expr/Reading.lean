-- SUMMARY: How the grammar reads the pieces of expressions that it reads itself.
import HeaderForms.Proofs.Expr.Levels
import HeaderForms.Proofs.Float64.Rounding

/-!
# Reading the pieces of an expression

An expression is readable when the grammar reads it at every position from what stands for it there.
From the parts of an expression that are readable, the pieces around them are read piece by piece:
sequences, clauses, fields and the elements of binaries. Wherever the grammar nests an expression it
has taken a token before, so that a limit for the tokens that are left is one for the nested ones.
-/

namespace HeaderForms

open HeaderForms.Parser HeaderForms.Render

namespace Expr

/-- The grammar reads the expression at every position from what stands for it there. -/
structure Readable (expr : Expr) : Prop where
  opens : Opens expr.level expr.render
  readsAt : ∀ limit position, position ≤ 10 → (expr.renderAt position).length ≤ limit + 1 →
    ReadsAt limit (expr.renderAt position) expr position

/-- An expression that its own level reads is read in parentheses at the levels behind it. -/
theorem readable_of_readsAt {expr : Expr} (hopens : Opens expr.level expr.render)
    (hlevel : expr.level ≤ 10) (h : ∀ limit, expr.render.length ≤ limit + 1 →
      ReadsAt limit expr.render expr expr.level) : Readable expr := by
  refine ⟨hopens, fun limit position hposition hlimit => ?_⟩
  obtain hlt | hle := Nat.lt_or_ge expr.level position
  · rw [renderAt_of_lt hlt] at hlimit ⊢
    have hlength := hlimit
    rw [List.length_cons, List.length_append, List.length_singleton] at hlength
    obtain ⟨limit, rfl⟩ := Nat.exists_eq_succ_of_ne_zero (show limit ≠ 0 by omega)
    have hinner : Reads (exprWithin (limit + 1)) expr.render (Follows 0) expr :=
      (h limit (by omega)).of_le hlevel hopens (by omega) (Nat.zero_le _)
    have hparens : ReadsAt (limit + 1)
        (.punct .openParen :: (expr.render ++ [.punct .closeParen])) expr 10 := by
      intro depth hdepth
      obtain ⟨depth, rfl⟩ := Nat.exists_eq_succ_of_ne_zero (Nat.ne_zero_of_lt hdepth)
      refine leads_peek (leads_skip (hinner.bind (leads_expectPunct Reads.pure) fun _ _ => ?_))
      exact follows_of_joins?_eq_none rfl
    exact hparens.of_le (Nat.le_refl 10) (opens_cons rfl (Nat.le_refl 10)) hlimit hposition
  · rw [renderAt_of_le hle] at hlimit ⊢
    exact (h limit hlimit).of_le hlevel hopens hlimit hle

namespace Readable

variable {expr : Expr} {limit position : Nat}

theorem opensAt (h : Readable expr) (hposition : position ≤ 10) :
    Opens position (expr.renderAt position) :=
  opens_renderAt h.opens hposition

theorem reads (h : Readable expr) (hposition : position ≤ 10)
    (hlimit : (expr.renderAt position).length ≤ limit + 1) :
    Reads (levelAt limit position) (expr.renderAt position) (Follows position) expr :=
  (h.readsAt limit position hposition hlimit).reads hposition hlimit

theorem reads_nested (h : Readable expr) (hlimit : expr.render.length ≤ limit) :
    Reads (exprWithin limit) expr.render (Follows 0) expr := by
  have hpos := h.opens.length_pos
  obtain ⟨limit, rfl⟩ := Nat.exists_eq_succ_of_ne_zero (show limit ≠ 0 by omega)
  rw [← renderAt_zero] at hlimit ⊢
  exact h.reads (Nat.zero_le 10) hlimit

theorem reads_primary (h : Readable expr) {depth : Nat}
    (hlimit : (expr.renderAt 10).length ≤ limit + 1) (hdepth : (expr.renderAt 10).length ≤ depth) :
    Reads (primaryWithin (limit + 1) (exprWithin limit) depth) (expr.renderAt 10) (Follows 10)
      expr :=
  h.readsAt limit 10 (Nat.le_refl 10) hlimit depth hdepth

end Readable

/-! ## Numbers -/

/-- A primary expression is read from its first lexeme on. -/
theorem readable_of_reads_primary {expr : Expr} {lexeme : Lexeme} {behind : List Lexeme}
    (hlevel : expr.level = 10) (hrender : expr.render = lexeme :: behind)
    (hopens : lexeme.opens? = some 10)
    (h : ∀ limit depth, behind.length ≤ limit → behind.length ≤ depth →
      Reads (primaryWithin (limit + 1) (exprWithin limit) (depth + 1)) (lexeme :: behind)
        (Follows 10) expr) : Readable expr := by
  refine readable_of_readsAt ?_ (Nat.le_of_eq hlevel) fun limit hlimit => ?_
  · rw [hrender]
    exact opens_cons hopens (Nat.le_of_eq hlevel)
  · rw [hlevel]
    rw [hrender] at hlimit ⊢
    intro depth hdepth
    obtain ⟨depth, rfl⟩ := Nat.exists_eq_succ_of_ne_zero (Nat.ne_zero_of_lt hdepth)
    exact h limit depth (Nat.le_of_succ_le_succ hlimit) (Nat.le_of_succ_le_succ hdepth)

/-- An operator in front of a readable operand is read as part of what it makes with it. -/
theorem readable_of_sign {expr operand : Expr} (op : UnaryOp) (hlevel : expr.level = 8)
    (hrender : expr.render = op.lexeme :: operand.renderAt 8) (hsigned : signed op operand = expr)
    (h : Readable operand) : Readable expr := by
  have hselect : prefixOp? op.lexeme = some op := by cases op <;> rfl
  refine readable_of_readsAt ?_ (by rw [hlevel]; decide) fun limit hlimit => ?_
  · rw [hrender]
    exact opens_cons (by cases op <;> rfl) (Nat.le_of_eq hlevel)
  · rw [hlevel]
    rw [hrender] at hlimit ⊢
    have hoperand : ReadsAt limit (operand.renderAt 8) operand 8 :=
      h.readsAt limit 8 (by decide) (Nat.le_of_succ_le hlimit)
    rw [← hsigned]
    exact ReadsPrefixed.sign hselect hoperand

theorem readable_natural (value : Nat) : Readable (.integer value) := by
  have hrender : (integer value).render = [.integer value] := by
    rw [← renderAt_zero, renderAt_natural (Nat.zero_le 10)]
  refine readable_of_reads_primary (level_natural value) hrender rfl fun limit depth _ _ => ?_
  exact leads_peek (leads_skip Reads.pure)

theorem readable_integer (value : Int) : Readable (.integer value) := by
  obtain hsign | hsign := Int.lt_or_le value 0
  · refine readable_of_sign .minus (if_pos hsign) ?_ ?_ (readable_natural value.natAbs)
    · rw [render_negative hsign, renderAt_natural (by decide)]
      rfl
    · rw [signed, show -(value.natAbs : Int) = value by omega]
  · rw [← Int.natAbs_of_nonneg hsign]
    exact readable_natural value.natAbs

theorem readable_positive {value : Float64} (hsign : value.isNegative = false) :
    Readable (.float value) := by
  have hlevel : (float value).level = 10 := by rw [level, hsign]; rfl
  have hrender : (float value).render = [.float value] := by
    rw [← renderAt_zero, renderAt_positive (Nat.zero_le 10) hsign]
  refine readable_of_reads_primary hlevel hrender rfl fun limit depth _ _ => ?_
  exact leads_peek (leads_skip Reads.pure)

theorem readable_float (value : Float64) : Readable (.float value) := by
  cases hsign : value.isNegative with
  | true =>
    have hnegate : value.negate.isNegative = false := by rw [value.isNegative_negate, hsign]; rfl
    refine readable_of_sign .minus (if_pos hsign) ?_ ?_ (readable_positive hnegate)
    · rw [render_negative_float hsign, renderAt_positive (by decide) hnegate]
      rfl
    · rw [signed, value.negate_negate]
  | false => exact readable_positive hsign

/-! ## Sequences -/

section Sequences

variable {limit rounds : Nat} {follow : Option Lexeme → Prop}

theorem opens_zero {expr : Expr} (h : Readable expr) : Opens 0 expr.render :=
  h.opens.mono (Nat.zero_le _)

/-- What joins nothing and is no comma ends a sequence of expressions. -/
theorem reads_exprs {items : List Expr} (hitems : ∀ item ∈ items, Readable item) (hne : items ≠ [])
    (hlimit : (sequence items).length ≤ limit) (hrounds : limit ≤ rounds)
    (hfollow : ∀ ahead, follow ahead → Follows 0 ahead ∧ ahead ≠ some (.punct .comma)) :
    Reads (exprs rounds (exprWithin limit)) (sequence items) follow items := by
  refine reads_separated ?_ hne ?_ (follows_of_joins?_eq_none rfl) hfollow
  · intro item hitem
    exact (hitems item hitem).reads_nested
      (Nat.le_trans (length_le_intercalate (.punct .comma) render hitem) hlimit)
  · have hlength := length_le_length_intercalate (.punct .comma) render fun item hitem =>
      (opens_zero (hitems item hitem)).length_pos
    exact Nat.le_trans hlength (Nat.le_trans hlimit hrounds)

/-- A bracket that closes a list of items neither begins nor joins an expression. -/
structure Closes (close : Punct) : Prop where
  ne_comma : close ≠ .comma
  opens : (Lexeme.punct close).opens? = none
  joins : (Lexeme.punct close).joins? = none

theorem Closes.follows {close : Punct} (h : Closes close) {ahead : Option Lexeme} {level : Nat}
    (hahead : ahead = some (.punct .comma) ∨ ahead = some (.punct close)) : Follows level ahead := by
  obtain rfl | rfl := hahead
  · exact follows_of_joins?_eq_none rfl
  · exact follows_of_joins?_eq_none h.joins

/-- Items that begin as expressions do are read up to a bracket. -/
theorem reads_bracketed {α : Type} {item : Parser α} {spell : α → List Lexeme} {items : List α}
    {close : Punct} (hclose : Closes close) (hopens : ∀ value ∈ items, Opens 0 (spell value))
    (hitems : ∀ value ∈ items, Reads item (spell value)
      (fun ahead => ahead = some (.punct .comma) ∨ ahead = some (.punct close)) value)
    (hrounds : (commas (items.map spell)).length ≤ rounds) :
    Reads (delimited rounds close item) (commas (items.map spell) ++ [.punct close]) follow
      items := by
  have hlength := length_le_length_intercalate (.punct .comma) spell fun value hvalue =>
    (hopens value hvalue).length_pos
  refine reads_delimited hclose.ne_comma hitems ?_ (Nat.le_trans hlength hrounds)
  intro value hvalue
  obtain ⟨lexeme, behind, reach, hspell, hlexeme, -⟩ := hopens value hvalue
  refine ⟨lexeme, behind, hspell, fun heq => ?_⟩
  rw [heq, hclose.opens] at hlexeme
  cases hlexeme

theorem reads_items {items : List Expr} (hitems : ∀ item ∈ items, Readable item) {close : Punct}
    (hclose : Closes close) (hlimit : (sequence items).length ≤ limit)
    (hrounds : limit ≤ rounds) :
    Reads (delimited rounds close (exprWithin limit)) (sequence items ++ [.punct close])
      follow items := by
  refine reads_bracketed hclose (fun item hitem => opens_zero (hitems item hitem)) ?_
    (Nat.le_trans hlimit hrounds)
  intro item hitem
  have hlength := Nat.le_trans (length_le_intercalate (.punct .comma) render hitem) hlimit
  exact ((hitems item hitem).reads_nested hlength).mono fun ahead hahead => hclose.follows hahead

theorem reads_arguments {args : List Expr} (hargs : ∀ arg ∈ args, Readable arg)
    (hlimit : (sequence args).length ≤ limit) (hrounds : limit ≤ rounds) :
    Reads (arguments rounds (exprWithin limit))
      (.punct .openParen :: (sequence args ++ [.punct .closeParen])) follow args :=
  leads_expectPunct (reads_items hargs ⟨by decide, rfl, rfl⟩ hlimit hrounds)

end Sequences

/-! ## Clauses -/

section Clauses

variable {limit rounds : Nat} {follow : Option Lexeme → Prop}

theorem length_sequence_pos {items : List Expr} (hitems : ∀ item ∈ items, Readable item)
    (hne : items ≠ []) : 0 < (sequence items).length := by
  obtain ⟨item, items, rfl⟩ := List.exists_cons_of_ne_nil hne
  exact Nat.lt_of_lt_of_le (opens_zero (hitems item List.mem_cons_self)).length_pos
    (length_le_intercalate (.punct .comma) render List.mem_cons_self)

/-- Guards in front of an arrow. -/
theorem reads_guards {guards : List (List Expr)}
    (hguards : ∀ guard ∈ guards, (∀ test ∈ guard, Readable test) ∧ guard ≠ []) (hne : guards ≠ [])
    (hlimit : (semicolons (guards.map sequence)).length ≤ limit) (hrounds : limit ≤ rounds) :
    Reads (Parser.guards rounds (exprWithin limit)) (semicolons (guards.map sequence))
      (fun ahead => ahead = some (.punct .arrow)) guards := by
  have hitems : ∀ guard ∈ guards, Reads (exprs rounds (exprWithin limit)) (sequence guard)
      (fun ahead => ahead = some (.punct .semicolon) ∨ ahead = some (.punct .arrow)) guard := by
    intro guard hguard
    have hlength := length_le_intercalate (.punct .semicolon) sequence hguard
    refine reads_exprs (hguards guard hguard).1 (hguards guard hguard).2
      (Nat.le_trans hlength hlimit) hrounds ?_
    rintro ahead (rfl | rfl)
    · exact ⟨follows_of_joins?_eq_none rfl, by decide⟩
    · exact ⟨follows_of_joins?_eq_none rfl, by decide⟩
  have hlength := length_le_length_intercalate (.punct .semicolon) sequence fun guard hguard =>
    length_sequence_pos (hguards guard hguard).1 (hguards guard hguard).2
  refine reads_separated hitems hne (Nat.le_trans hlength (Nat.le_trans hlimit hrounds))
    (.inl rfl) ?_
  rintro ahead rfl
  exact ⟨.inr rfl, by decide⟩

/-- Every part of the clause is readable, and none is missing. -/
structure ClauseReadable (clause : Clause) : Prop where
  complete : clause.Complete
  parts : ∀ part ∈ clause.parts, Readable part

variable {patterns body : List Expr} {guards : List (List Expr)}

theorem ClauseReadable.readable_patterns (h : ClauseReadable (.mk patterns guards body)) :
    ∀ pattern ∈ patterns, Readable pattern :=
  fun pattern hpattern => h.parts pattern (by simp [Clause.parts, Clause.patterns, hpattern])

theorem ClauseReadable.readable_guards (h : ClauseReadable (.mk patterns guards body)) :
    ∀ guard ∈ guards, (∀ test ∈ guard, Readable test) ∧ guard ≠ [] := by
  refine fun guard hguard => ⟨fun test htest => h.parts test ?_, h.complete.guards guard hguard⟩
  simp only [Clause.parts, Clause.guards, List.mem_append]
  exact .inl (.inr (List.mem_flatten.2 ⟨guard, hguard, htest⟩))

theorem ClauseReadable.readable_body (h : ClauseReadable (.mk patterns guards body)) :
    (∀ expr ∈ body, Readable expr) ∧ body ≠ [] :=
  ⟨fun expr hexpr => h.parts expr (by simp [Clause.parts, Clause.body, hexpr]), h.complete.body⟩

/-- What can follow a clause. -/
def EndsClause (ahead : Option Lexeme) : Prop :=
  ahead = some (.punct .semicolon) ∨ ahead = some (.keyword .end_)

theorem reads_body {body : List Expr} (hbody : (∀ expr ∈ body, Readable expr) ∧ body ≠ [])
    (hlimit : (sequence body).length ≤ limit) (hrounds : limit ≤ rounds) :
    Reads (exprs rounds (exprWithin limit)) (sequence body) EndsClause body := by
  refine reads_exprs hbody.1 hbody.2 hlimit hrounds ?_
  rintro ahead (rfl | rfl)
  · exact ⟨follows_of_joins?_eq_none rfl, by decide⟩
  · exact ⟨follows_of_joins?_eq_none rfl, by decide⟩

theorem reads_clauseRest (h : ClauseReadable (.mk patterns guards body))
    (hlimit : (guarded (guards.map sequence) ++ .punct .arrow :: sequence body).length ≤ limit)
    (hrounds : limit ≤ rounds) :
    Reads (clauseRest rounds (exprWithin limit) patterns)
      (guarded (guards.map sequence) ++ .punct .arrow :: sequence body) EndsClause
      (.mk patterns guards body) := by
  rw [List.length_append, List.length_cons] at hlimit
  have hrest : Reads (do
      expectPunct .arrow
      return .mk patterns guards (← exprs rounds (exprWithin limit)))
      (.punct .arrow :: sequence body) EndsClause (Clause.mk patterns guards body) :=
    leads_expectPunct (reads_body h.readable_body (by omega) hrounds).bind_pure
  cases guards with
  | nil => exact leads_eat_cons_ne (by simp) hrest
  | cons guard guards =>
    rw [List.map_cons, guarded, ← List.map_cons] at hlimit ⊢
    rw [List.length_cons] at hlimit
    have hguards := reads_guards h.readable_guards (List.cons_ne_nil guard guards) (by omega) hrounds
    exact leads_eat (hguards.bind hrest fun _ _ => rfl)

theorem follows_guarded (guards : List (List Lexeme)) (lexemes : List Lexeme)
    (ahead : Option Lexeme) :
    Follows 0 ((guarded guards ++ .punct .arrow :: lexemes).head?.or ahead) := by
  cases guards with
  | nil => exact follows_of_joins?_eq_none rfl
  | cons guard guards => exact follows_of_joins?_eq_none rfl

theorem reads_caseClause {pattern : Expr} (h : ClauseReadable (.mk [pattern] guards body))
    (hlimit : (Clause.render caseHead (.mk [pattern] guards body)).length ≤ limit)
    (hrounds : limit ≤ rounds) :
    Reads (caseClause rounds (exprWithin limit))
      (Clause.render caseHead (.mk [pattern] guards body)) EndsClause
      (.mk [pattern] guards body) := by
  rw [Clause.render, caseHead, List.map_singleton, commas, List.intercalate_singleton,
    List.append_assoc] at hlimit ⊢
  have hlength := hlimit
  rw [List.length_append] at hlength
  have hpattern : Reads (exprWithin limit) pattern.render (Follows 0) pattern :=
    (h.readable_patterns pattern List.mem_cons_self).reads_nested (by omega)
  exact hpattern.bind (reads_clauseRest h (by omega) hrounds) fun _ _ => follows_guarded _ _ _

theorem reads_funClause (h : ClauseReadable (.mk patterns guards body))
    (hlimit : (Clause.render funHead (.mk patterns guards body)).length ≤ limit)
    (hrounds : limit ≤ rounds) :
    Reads (funClause rounds (exprWithin limit))
      (Clause.render funHead (.mk patterns guards body)) EndsClause
      (.mk patterns guards body) := by
  have hrender : Clause.render funHead (.mk patterns guards body) =
      .punct .openParen :: (sequence patterns ++ [.punct .closeParen]) ++
        (guarded (guards.map sequence) ++ .punct .arrow :: sequence body) := by
    simp [Clause.render, funHead, sequence]
  rw [hrender] at hlimit ⊢
  rw [List.length_append, List.length_cons, List.length_append] at hlimit
  have hpatterns : Reads (arguments rounds (exprWithin limit))
      (.punct .openParen :: (sequence patterns ++ [.punct .closeParen])) (fun _ => True) patterns :=
    reads_arguments h.readable_patterns (by omega) hrounds
  exact hpatterns.bind (reads_clauseRest h (by omega) hrounds) fun _ _ => trivial

theorem reads_ifClause (h : ClauseReadable (.mk [] guards body)) (hne : guards ≠ [])
    (hlimit : (Clause.render ifHead (.mk [] guards body)).length ≤ limit)
    (hrounds : limit ≤ rounds) :
    Reads (ifClause rounds (exprWithin limit))
      (Clause.render ifHead (.mk [] guards body)) EndsClause (.mk [] guards body) := by
  rw [Clause.render, ifHead] at hlimit ⊢
  rw [List.length_append, List.length_cons] at hlimit
  have hguards := reads_guards h.readable_guards hne (by omega) hrounds
  have hbody := reads_body h.readable_body (by omega) hrounds
  exact hguards.bind (leads_expectPunct hbody.bind_pure) fun _ _ => rfl

/-- Clauses between semicolons, in front of `end`. -/
theorem reads_clausesToEnd {clause : Parser Clause}
    {head : List (List Lexeme) → List (List Lexeme) → List Lexeme} {clauses : List Clause}
    (hclauses : ∀ value ∈ clauses, Reads clause (value.render head) EndsClause value)
    (hne : clauses ≠ [])
    (hrounds : (semicolons (clauses.map (Clause.render head))).length ≤ rounds) :
    Reads (clausesToEnd rounds clause)
      (semicolons (clauses.map (Clause.render head)) ++ [.keyword .end_]) follow clauses := by
  have hpos : ∀ value ∈ clauses, 0 < (value.render head).length := by
    rintro ⟨patterns, guards, body⟩ _
    rw [Clause.render, List.length_append]
    exact Nat.add_pos_right _ (Nat.succ_pos _)
  have hlength := length_le_length_intercalate (.punct .semicolon) (Clause.render head) hpos
  have hseparated : Reads (separated rounds .semicolon clause)
      (semicolons (clauses.map (Clause.render head))) (fun ahead => ahead = some (.keyword .end_))
      clauses := by
    refine reads_separated hclauses hne (Nat.le_trans hlength hrounds) (.inl rfl) ?_
    rintro ahead rfl
    exact ⟨.inr rfl, by simp⟩
  exact hseparated.bind (leads_expectKeyword Reads.pure) fun _ _ => rfl

end Clauses

/-! ## Fields -/

section Fields

variable {limit rounds : Nat} {follow : Option Lexeme → Prop} {close : Punct}

theorem reads_mapField {field : MapField} (hparts : ∀ part ∈ field.parts, Readable part)
    (hclose : Closes close) (hlimit : field.render.length ≤ limit) :
    Reads (mapField (exprWithin limit)) field.render
      (fun ahead => ahead = some (.punct .comma) ∨ ahead = some (.punct close)) field := by
  obtain ⟨key, value, exact⟩ := field
  rw [MapField.render] at hlimit ⊢
  rw [List.length_append, List.length_cons] at hlimit
  have hkey : Reads (exprWithin limit) key.render (Follows 0) key :=
    (hparts key (by simp [MapField.parts])).reads_nested (by omega)
  have hvalue : Reads (exprWithin limit) value.render (Follows 0) value :=
    (hparts value (by simp [MapField.parts])).reads_nested (by omega)
  have harrow : mapArrow? (.punct (if exact then .colonEquals else .rightDoubleArrow)) =
      some exact := by
    cases exact <;> rfl
  refine hkey.bind (leads_take harrow ?_) fun _ _ => ?_
  · exact (hvalue.mono fun ahead hahead => hclose.follows hahead).bind_pure
  · cases exact <;> exact follows_of_joins?_eq_none rfl

theorem reads_fieldValue {field : FieldValue} (hvalue : Readable field.value)
    (hclose : Closes close) (hlimit : field.render.length ≤ limit) :
    Reads (fieldValue (exprWithin limit)) field.render
      (fun ahead => ahead = some (.punct .comma) ∨ ahead = some (.punct close)) field := by
  obtain ⟨name, value⟩ := field
  rw [FieldValue.render, List.length_cons, List.length_cons] at hlimit
  have hread : Reads (exprWithin limit) value.render (Follows 0) value :=
    Readable.reads_nested hvalue (by omega)
  refine leads_takeAny rfl (leads_expectPunct ?_)
  exact (hread.mono fun ahead hahead => hclose.follows hahead).bind_pure

theorem opens_mapField {field : MapField} (hparts : ∀ part ∈ field.parts, Readable part) :
    Opens 0 field.render := by
  obtain ⟨key, value, exact⟩ := field
  exact (opens_zero (hparts key (by simp [MapField.parts]))).append _

theorem closes_brace : Closes .closeBrace :=
  ⟨by decide, rfl, rfl⟩

theorem reads_mapFields {fields : List MapField}
    (hparts : ∀ field ∈ fields, ∀ part ∈ field.parts, Readable part)
    (hlimit : (commas (fields.map MapField.render)).length ≤ limit) (hrounds : limit ≤ rounds) :
    Reads (delimited rounds .closeBrace (mapField (exprWithin limit)))
      (commas (fields.map MapField.render) ++ [.punct .closeBrace]) follow fields := by
  refine reads_bracketed closes_brace (fun field hfield => opens_mapField (hparts field hfield)) ?_
    (Nat.le_trans hlimit hrounds)
  intro field hfield
  have hlength := length_le_intercalate (.punct .comma) MapField.render hfield
  exact reads_mapField (hparts field hfield) closes_brace (Nat.le_trans hlength hlimit)

theorem reads_fieldValues {fields : List FieldValue}
    (hvalues : ∀ field ∈ fields, Readable field.value)
    (hlimit : (commas (fields.map FieldValue.render)).length ≤ limit) (hrounds : limit ≤ rounds) :
    Reads (delimited rounds .closeBrace (fieldValue (exprWithin limit)))
      (commas (fields.map FieldValue.render) ++ [.punct .closeBrace]) follow fields := by
  refine reads_bracketed closes_brace ?_ ?_ (Nat.le_trans hlimit hrounds)
  · rintro ⟨name, value⟩ _
    exact opens_cons rfl (Nat.zero_le 10)
  · intro field hfield
    have hlength := length_le_intercalate (.punct .comma) FieldValue.render hfield
    exact reads_fieldValue (hvalues field hfield) closes_brace (Nat.le_trans hlength hlimit)

/-! What follows a `#`, in its three kinds. -/

variable {map : List MapField → Expr} {access : String → String → Expr}
  {record : String → List FieldValue → Expr}

theorem reads_hashRest_map {fields : List MapField}
    (hparts : ∀ field ∈ fields, ∀ part ∈ field.parts, Readable part)
    (hlimit : (commas (fields.map MapField.render)).length ≤ limit) (hrounds : limit ≤ rounds) :
    Reads (hashRest rounds (exprWithin limit) map access record)
      (.punct .openBrace :: (commas (fields.map MapField.render) ++ [.punct .closeBrace])) follow
      (map fields) :=
  leads_eat (reads_mapFields hparts hlimit hrounds).bind_pure

theorem reads_hashRest_access {name field : String} :
    Reads (hashRest rounds (exprWithin limit) map access record)
      [.atom name, .punct .period, .atom field] follow (access name field) := by
  exact leads_eat_cons_ne (by simp) (leads_expectAtom (leads_eat (leads_expectAtom Reads.pure)))

theorem reads_hashRest_record {name : String} {fields : List FieldValue}
    (hvalues : ∀ field ∈ fields, Readable field.value)
    (hlimit : (commas (fields.map FieldValue.render)).length ≤ limit) (hrounds : limit ≤ rounds) :
    Reads (hashRest rounds (exprWithin limit) map access record)
      (.atom name :: .punct .openBrace ::
        (commas (fields.map FieldValue.render) ++ [.punct .closeBrace])) follow
      (record name fields) := by
  refine leads_eat_cons_ne (by simp) (leads_expectAtom (leads_eat_cons_ne (by simp) ?_))
  refine leads_expectPunct ?_
  exact (reads_fieldValues hvalues hlimit hrounds).bind_pure

end Fields

/-! ## Lists -/

section Lists

variable {limit rounds : Nat} {follow : Option Lexeme → Prop}

theorem closes_bracket : Closes .closeBracket :=
  ⟨by decide, rfl, rfl⟩

theorem opens_qualifier {qualifier : Qualifier}
    (hparts : ∀ part ∈ qualifier.parts, Readable part) : Opens 0 qualifier.render := by
  cases qualifier with
  | generator pattern source | bitGenerator pattern source =>
    exact (opens_zero (hparts pattern (by simp [Qualifier.parts]))).append _
  | filter test => exact opens_zero (hparts test (by simp [Qualifier.parts]))

theorem reads_qualifier {qualifier : Qualifier} (hparts : ∀ part ∈ qualifier.parts, Readable part)
    (hlimit : qualifier.render.length ≤ limit) :
    Reads (listRest.qualifier (exprWithin limit)) qualifier.render
      (fun ahead => ahead = some (.punct .comma) ∨ ahead = some (.punct .closeBracket))
      qualifier := by
  have hread : ∀ part ∈ qualifier.parts, part.render.length ≤ limit →
      Reads (exprWithin limit) part.render (Follows 0) part :=
    fun part hpart hlength => (hparts part hpart).reads_nested hlength
  have hclosed : ∀ ahead, (ahead = some (.punct .comma) ∨ ahead = some (.punct .closeBracket)) →
      Follows 0 ahead :=
    fun ahead hahead => closes_bracket.follows hahead
  cases qualifier with
  | generator pattern source =>
    rw [Qualifier.render] at hlimit ⊢
    rw [List.length_append, List.length_cons] at hlimit
    have hpattern := hread pattern (by simp [Qualifier.parts]) (by omega)
    have hsource := hread source (by simp [Qualifier.parts]) (by omega)
    refine hpattern.bind (leads_eat (hsource.mono hclosed).bind_pure) fun _ _ => ?_
    exact follows_of_joins?_eq_none rfl
  | bitGenerator pattern source =>
    rw [Qualifier.render] at hlimit ⊢
    rw [List.length_append, List.length_cons] at hlimit
    have hpattern := hread pattern (by simp [Qualifier.parts]) (by omega)
    have hsource := hread source (by simp [Qualifier.parts]) (by omega)
    refine hpattern.bind (leads_eat_cons_ne (by simp) ?_) fun _ _ => follows_of_joins?_eq_none rfl
    exact leads_eat (hsource.mono hclosed).bind_pure
  | filter test =>
    have htest := hread test (by simp [Qualifier.parts]) hlimit
    rw [Qualifier.render, ← List.append_nil test.render]
    refine htest.bind (leads_eat_ne ?_ (leads_eat_ne ?_ Reads.pure)) hclosed
    · rintro ahead (rfl | rfl) <;> simp
    · rintro ahead (rfl | rfl) <;> simp

theorem reads_qualifiers {qualifiers : List Qualifier}
    (hparts : ∀ qualifier ∈ qualifiers, ∀ part ∈ qualifier.parts, Readable part)
    (hlimit : (commas (qualifiers.map Qualifier.render)).length ≤ limit)
    (hrounds : limit ≤ rounds) :
    Reads (delimited rounds .closeBracket (listRest.qualifier (exprWithin limit)))
      (commas (qualifiers.map Qualifier.render) ++ [.punct .closeBracket]) follow qualifiers := by
  refine reads_bracketed closes_bracket
    (fun qualifier hmem => opens_qualifier (hparts qualifier hmem)) ?_ (Nat.le_trans hlimit hrounds)
  intro qualifier hmem
  have hlength := length_le_intercalate (.punct .comma) Qualifier.render hmem
  exact reads_qualifier (hparts qualifier hmem) (Nat.le_trans hlength hlimit)

/-- The items that follow the first one of a list. -/
def following : List Expr → List Lexeme
  | [] => []
  | item :: items => .punct .comma :: sequence (item :: items)

/-- The end of a list, with its tail if it is improper. -/
def ending : Option Expr → List Lexeme
  | none => [.punct .closeBracket]
  | some tail => .punct .bar :: (tail.render ++ [.punct .closeBracket])

theorem sequence_cons (item : Expr) (items : List Expr) :
    sequence (item :: items) = item.render ++ following items := by
  cases items with
  | nil => simp [sequence, commas, following]
  | cons second items =>
    simp [sequence, commas, following, List.intercalate_cons_cons]

/-- The expression is the tail of a list whose items can be read one by one. -/
def Continues (expr : Expr) : Prop :=
  ∃ items tail, expr = items.foldr .cons (tail.getD .nil) ∧
    closing expr expr.render = following items ++ ending tail ∧
    (∀ item ∈ items, Readable item) ∧ ∀ last ∈ tail, Readable last

theorem Readable.continues {expr : Expr} (h : Readable expr)
    (hcons : ∀ head tail, expr ≠ .cons head tail) : Continues expr := by
  cases expr with
  | nil => exact ⟨[], none, rfl, rfl, List.forall_mem_nil _, by simp⟩
  | cons head tail => exact absurd rfl (hcons head tail)
  | _ => exact ⟨[], some _, rfl, rfl, List.forall_mem_nil _, by rintro _ ⟨⟩; exact h⟩

theorem continues_cons {head tail : Expr} (hhead : Readable head) (htail : Continues tail) :
    Continues (.cons head tail) := by
  obtain ⟨items, last, rfl, hclosing, hitems, hlast⟩ := htail
  refine ⟨head :: items, last, rfl, ?_, List.forall_mem_cons.2 ⟨hhead, hitems⟩, hlast⟩
  rw [closing, render, List.tail_cons, hclosing, following, sequence_cons, List.cons_append,
    List.append_assoc]

/-- The end of a list, behind the items of it that have been read. -/
theorem reads_ending {tail : Option Expr} (htail : ∀ last ∈ tail, Readable last)
    (hlimit : (ending tail).length ≤ limit) (items : List Expr) :
    Reads (do
        let tail ← if ← eatPunct .bar then exprWithin limit else pure .nil
        expectPunct .closeBracket
        return items.foldr .cons tail)
      (ending tail) follow (items.foldr .cons (tail.getD .nil)) := by
  have hclose : ∀ last : Expr, Reads (do
      expectPunct .closeBracket
      return items.foldr .cons last) [.punct .closeBracket] follow (items.foldr .cons last) :=
    fun last => leads_expectPunct Reads.pure
  cases tail with
  | none => exact leads_eat_cons_ne (by simp) (hclose .nil)
  | some tail =>
    rw [ending, List.length_cons, List.length_append] at hlimit
    have hlast : Reads (exprWithin limit) tail.render (Follows 0) tail :=
      (htail tail rfl).reads_nested (by omega)
    exact leads_eat (hlast.bind (hclose tail) fun _ _ => follows_of_joins?_eq_none rfl)

theorem follows_ending (tail : Option Expr) (ahead : Option Lexeme) :
    Follows 0 ((ending tail).head?.or ahead) ∧
      (ending tail).head?.or ahead ≠ some (.punct .comma) ∧
      (ending tail).head?.or ahead ≠ some (.punct .doubleBar) := by
  cases tail with
  | none => exact ⟨follows_of_joins?_eq_none rfl, by simp [ending], by simp [ending]⟩
  | some tail => exact ⟨follows_of_joins?_eq_none rfl, by simp [ending], by simp [ending]⟩

theorem reads_listRest {head : Expr} {items : List Expr} {tail : Option Expr}
    (hhead : Readable head) (hitems : ∀ item ∈ items, Readable item)
    (htail : ∀ last ∈ tail, Readable last)
    (hlimit : (head.render ++ (following items ++ ending tail)).length ≤ limit)
    (hrounds : limit ≤ rounds) :
    Reads (listRest rounds (exprWithin limit)) (head.render ++ (following items ++ ending tail))
      follow ((head :: items).foldr .cons (tail.getD .nil)) := by
  rw [List.length_append, List.length_append] at hlimit
  have hfirst : Reads (exprWithin limit) head.render (Follows 0) head :=
    hhead.reads_nested (by omega)
  refine leads_eat_ne (fun ahead _ => (opens_zero hhead).head?_ne rfl _ ahead) ?_
  cases items with
  | nil =>
    refine hfirst.bind ?_ fun ahead _ => (follows_ending tail ahead).1
    refine leads_eat_ne (fun ahead _ => (follows_ending tail ahead).2.2) ?_
    refine leads_eat_ne (fun ahead _ => (follows_ending tail ahead).2.1) ?_
    exact reads_ending htail (by omega) [head]
  | cons item items =>
    rw [following, List.length_cons] at hlimit
    have hmore : Reads (exprs rounds (exprWithin limit)) (sequence (item :: items))
        (fun ahead => Follows 0 ahead ∧ ahead ≠ some (.punct .comma)) (item :: items) :=
      reads_exprs hitems (List.cons_ne_nil item items) (by omega) hrounds fun ahead hahead => hahead
    refine hfirst.bind ?_ fun _ _ => follows_of_joins?_eq_none rfl
    refine leads_eat_cons_ne (by simp) (leads_eat (hmore.bind ?_ fun ahead _ => ?_))
    · exact reads_ending htail (by omega) (head :: item :: items)
    · exact ⟨(follows_ending tail ahead).1, (follows_ending tail ahead).2.1⟩

theorem reads_listRest_comprehension {body : Expr} {qualifiers : List Qualifier}
    (hbody : Readable body)
    (hparts : ∀ qualifier ∈ qualifiers, ∀ part ∈ qualifier.parts, Readable part)
    (hlimit : (body.render ++ Lexeme.punct .doubleBar ::
      (commas (qualifiers.map Qualifier.render) ++ [.punct .closeBracket])).length ≤ limit)
    (hrounds : limit ≤ rounds) :
    Reads (listRest rounds (exprWithin limit))
      (body.render ++ .punct .doubleBar ::
        (commas (qualifiers.map Qualifier.render) ++ [.punct .closeBracket]))
      follow (.comprehension body qualifiers) := by
  rw [List.length_append, List.length_cons, List.length_append] at hlimit
  have hfirst : Reads (exprWithin limit) body.render (Follows 0) body :=
    hbody.reads_nested (by omega)
  refine leads_eat_ne (fun ahead _ => (opens_zero hbody).head?_ne rfl _ ahead) ?_
  refine hfirst.bind (leads_eat ?_) fun _ _ => follows_of_joins?_eq_none rfl
  exact (reads_qualifiers hparts (by omega) hrounds).bind_pure

end Lists

/-! ## Elements of binaries -/

section Elements

variable {limit rounds : Nat} {follow : Option Lexeme → Prop}

theorem reads_expectInteger (value : Int) : Reads expectInteger (ofInt value) follow value := by
  by_cases hsign : value < 0
  · rw [ofInt, if_pos hsign]
    refine leads_eat (leads_take rfl ?_)
    rw [if_pos rfl, show -(value.natAbs : Int) = value by omega]
    exact Reads.pure
  · rw [ofInt, if_neg hsign]
    refine leads_eat_cons_ne (by simp) (leads_take rfl ?_)
    rw [if_neg Bool.false_ne_true, show (value.natAbs : Int) = value by omega]
    exact Reads.pure

theorem reads_elementSpec (spec : String × Option Int) :
    Reads elementSpec (ofSpec spec) (Follows 9) spec := by
  obtain ⟨name, _ | unit⟩ := spec
  · refine leads_expectAtom (leads_eat_ne ?_ Reads.pure)
    exact fun ahead hahead => hahead.ne_some rfl (Nat.le_refl 9)
  · refine leads_expectAtom (leads_eat ?_)
    have hunit : Reads (some <$> expectInteger) (ofInt unit) (Follows 9) (some unit) :=
      (reads_expectInteger unit).map
    exact hunit.bind_pure

theorem length_ofSpec_pos (spec : String × Option Int) : 0 < (ofSpec spec).length := by
  obtain ⟨name, _ | unit⟩ := spec
  · exact Nat.succ_pos _
  · exact Nat.succ_pos _

/-- What follows the value and the size of an element. -/
def afterSize (rounds : Nat) (value : Expr) (size : Option Expr) : Parser BinElement := do
  let specs ← if ← eatPunct .slash then separated rounds .minus elementSpec else pure []
  return .mk value size specs

/-- What follows the value of an element. -/
def afterValue (rounds : Nat) (primary : Parser Expr) (value : Expr) : Parser BinElement := do
  let size ← if ← eatPunct .colon then some <$> primary else pure none
  afterSize rounds value size

theorem reads_afterSize {specs : List (String × Option Int)}
    (hrounds : (ofSpecs specs).length ≤ rounds) (value : Expr) (size : Option Expr) :
    Reads (afterSize rounds value size) (ofSpecs specs) (Follows 0) (.mk value size specs) := by
  cases specs with
  | nil =>
    refine leads_eat_ne ?_ Reads.pure
    exact fun ahead hahead => hahead.ne_some rfl (Nat.zero_le 7)
  | cons spec specs =>
    rw [ofSpecs, List.length_cons] at hrounds
    have hlength : (spec :: specs).length ≤ _ :=
      length_le_length_intercalate (.punct .minus) ofSpec fun spec _ => length_ofSpec_pos spec
    have hspecs : Reads (separated rounds .minus elementSpec)
        ([.punct .minus].intercalate ((spec :: specs).map ofSpec)) (Follows 0) (spec :: specs) := by
      refine reads_separated (fun spec _ => reads_elementSpec spec) (List.cons_ne_nil spec specs)
        (by omega) (follows_of_joins?_eq_some rfl (by decide)) fun ahead hahead => ?_
      exact ⟨hahead.mono (Nat.zero_le 9), hahead.ne_some rfl (Nat.zero_le 6)⟩
    exact leads_eat hspecs.bind_pure

theorem reads_afterValue {size : Option Expr} {specs : List (String × Option Int)}
    (hsize : ∀ expr ∈ size, Readable expr) {depth : Nat}
    (hlimit : (sizeRender size ++ ofSpecs specs).length ≤ limit)
    (hdepth : (sizeRender size ++ ofSpecs specs).length ≤ depth) (value : Expr) :
    Reads (afterValue (limit + 1) (primaryWithin (limit + 1) (exprWithin limit) depth) value)
      (sizeRender size ++ ofSpecs specs) (Follows 0) (.mk value size specs) := by
  rw [List.length_append] at hlimit hdepth
  have hspecs : ∀ size, Reads (afterSize (limit + 1) value size) (ofSpecs specs) (Follows 0)
      (.mk value size specs) :=
    reads_afterSize (by omega) value
  cases size with
  | none =>
    refine leads_eat_ne ?_ (hspecs none)
    cases specs with
    | nil => exact fun ahead hahead => hahead.ne_some rfl (Nat.zero_le 9)
    | cons spec specs => simp [sizeRender, ofSpecs]
  | some size =>
    rw [sizeRender, List.length_cons] at hlimit hdepth
    have hread : Reads (some <$> primaryWithin (limit + 1) (exprWithin limit) depth)
        (size.renderAt 10) (Follows 10) (some size) :=
      ((hsize size rfl).reads_primary (by omega) (by omega)).map
    refine leads_eat (hread.bind (hspecs (some size)) fun ahead hahead => ?_)
    cases specs with
    | nil => exact hahead.mono (Nat.zero_le 10)
    | cons spec specs => exact follows_of_joins?_eq_some rfl (by decide)

/-- The value of an element is a sign and what it stands before, or a primary expression. -/
theorem elementValue_cases {value : Expr}
    (hkept : ∀ op operand, value.sign? = some (op, operand) →
      signedElement op operand = .unaryOp op operand)
    (hpart : Readable (value.sign?.elim value (·.2))) :
    (∃ op operand, signOp? op.lexeme = some op ∧ signedElement op operand = value ∧
      elementValue value value.render = op.lexeme :: operand.renderAt 10 ∧ Readable operand) ∨
    (elementValue value value.render = value.renderAt 10 ∧ Readable value) := by
  cases value with
  | integer value =>
    obtain hsign | hsign := Int.lt_or_le value 0
    · refine .inl ⟨.minus, .integer value.natAbs, rfl, ?_, ?_, readable_natural _⟩
      · rw [signedElement, show -(value.natAbs : Int) = value by omega]
      · rw [elementValue, render_negative hsign, renderAt_natural (Nat.le_refl 10)]
        rfl
    · refine .inr ⟨?_, hpart⟩
      rw [elementValue, renderAt_of_le (Nat.le_of_eq (if_neg (Int.not_lt.2 hsign)).symm)]
  | float value =>
    cases hsign : value.isNegative with
    | true =>
      have hnegate : value.negate.isNegative = false := by rw [value.isNegative_negate, hsign]; rfl
      refine .inl ⟨.minus, .float value.negate, rfl, ?_, ?_, readable_positive hnegate⟩
      · rw [signedElement, value.negate_negate]
      · rw [elementValue, render_negative_float hsign, renderAt_positive (Nat.le_refl 10) hnegate]
        rfl
    | false =>
      refine .inr ⟨?_, hpart⟩
      rw [elementValue, ← renderAt_zero, renderAt_positive (Nat.zero_le 10) hsign,
        renderAt_positive (Nat.le_refl 10) hsign]
  | unaryOp op operand =>
    cases op with
    | plus => exact .inl ⟨.plus, operand, rfl, hkept _ _ rfl, rfl, hpart⟩
    | minus => exact .inl ⟨.minus, operand, rfl, hkept _ _ rfl, rfl, hpart⟩
    | not_ | bnot => exact .inr ⟨rfl, hpart⟩
  | _ => exact .inr ⟨rfl, hpart⟩

/-- No sign begins what stands for a primary expression. -/
theorem signOp?_eq_none {lexemes : List Lexeme} (h : Opens 10 lexemes) (more : List Lexeme)
    (ahead : Option Lexeme) :
    ∀ lexeme ∈ (lexemes ++ more).head?.or ahead, signOp? lexeme = none := by
  obtain ⟨first, behind, reach, rfl, hfirst, hreach⟩ := h
  rintro _ ⟨⟩
  have hsign := prefixOp?_eq_none hfirst (Nat.le_of_succ_le hreach)
  unfold prefixOp? at hsign
  split at hsign
  case h_1 | h_2 => cases hsign
  case h_3 => exact hsign

theorem opens_binElement {element : BinElement} (hkept : element.SignKept)
    (hparts : ∀ part ∈ element.parts, Readable part) : Opens 0 element.render := by
  obtain ⟨value, size, specs⟩ := element
  rw [BinElement.render]
  obtain ⟨op, operand, hselect, -, hvalue, -⟩ | ⟨hvalue, hread⟩ :=
    elementValue_cases hkept (hparts _ List.mem_cons_self)
  · rw [hvalue]
    exact opens_cons (show op.lexeme.opens? = some 8 by cases op <;> rfl) (Nat.zero_le 8)
  · rw [hvalue]
    exact ((hread.opensAt (Nat.le_refl 10)).mono (Nat.zero_le 10)).append _

theorem reads_binElement {element : BinElement} (hkept : element.SignKept)
    (hparts : ∀ part ∈ element.parts, Readable part) {depth : Nat}
    (hlimit : element.render.length ≤ limit) (hdepth : element.render.length ≤ depth) :
    Reads (binElement (limit + 1) (primaryWithin (limit + 1) (exprWithin limit) depth))
      element.render (Follows 0) element := by
  obtain ⟨value, size, specs⟩ := element
  rw [BinElement.render] at hlimit hdepth ⊢
  rw [List.length_append] at hlimit hdepth
  have hsize : ∀ expr ∈ size, Readable expr := by
    intro expr hexpr
    exact hparts expr (List.mem_cons_of_mem _ (Option.mem_toList.2 hexpr))
  have hrest : Reads (afterValue (limit + 1) (primaryWithin (limit + 1) (exprWithin limit) depth)
      value) (sizeRender size ++ ofSpecs specs) (Follows 0) (.mk value size specs) :=
    reads_afterValue hsize (by omega) (by omega) value
  have hfollow : ∀ ahead, Follows 0 ahead →
      Follows 10 ((sizeRender size ++ ofSpecs specs).head?.or ahead) := by
    intro ahead hahead
    cases size with
    | some size => exact follows_of_joins?_eq_some rfl (by decide)
    | none =>
      cases specs with
      | nil => exact hahead.mono (Nat.zero_le 10)
      | cons spec specs => exact follows_of_joins?_eq_some rfl (by decide)
  obtain ⟨op, operand, hselect, hsigned, hvalue, hoperand⟩ | ⟨hvalue, hread⟩ :=
    elementValue_cases hkept (hparts _ List.mem_cons_self)
  · rw [hvalue] at hlimit hdepth ⊢
    rw [List.length_cons] at hlimit hdepth
    have hprimary : Reads (signedElement op <$> primaryWithin (limit + 1) (exprWithin limit) depth)
        (operand.renderAt 10) (Follows 10) value := by
      rw [← hsigned]
      exact (hoperand.reads_primary (by omega) (by omega)).map
    exact leads_take? hselect (hprimary.bind hrest hfollow)
  · rw [hvalue] at hlimit hdepth ⊢
    have hprimary : Reads (primaryWithin (limit + 1) (exprWithin limit) depth)
        (value.renderAt 10) (Follows 10) value :=
      hread.reads_primary (by omega) (by omega)
    refine leads_take?_none (fun ahead _ => ?_) (hprimary.bind hrest hfollow)
    exact signOp?_eq_none (hread.opensAt (Nat.le_refl 10)) _ ahead

theorem reads_binaryRest {elements : List BinElement}
    (hkept : ∀ element ∈ elements, element.SignKept)
    (hparts : ∀ element ∈ elements, ∀ part ∈ element.parts, Readable part) {depth : Nat}
    (hlimit : (commas (elements.map BinElement.render)).length ≤ limit)
    (hdepth : (commas (elements.map BinElement.render)).length ≤ depth) :
    Reads (binaryRest (limit + 1) (primaryWithin (limit + 1) (exprWithin limit) depth))
      (commas (elements.map BinElement.render) ++ [.punct .closeBinary]) follow
      (.binary elements) := by
  have hopens : ∀ element ∈ elements, Opens 0 element.render :=
    fun element hmem => opens_binElement (hkept element hmem) (hparts element hmem)
  have hitems : ∀ element ∈ elements, Reads (binElement (limit + 1)
      (primaryWithin (limit + 1) (exprWithin limit) depth)) element.render (Follows 0) element := by
    intro element hmem
    have hlength := length_le_intercalate (.punct .comma) BinElement.render hmem
    exact reads_binElement (hkept element hmem) (hparts element hmem)
      (Nat.le_trans hlength hlimit) (Nat.le_trans hlength hdepth)
  cases elements with
  | nil => exact leads_eat Reads.pure
  | cons element elements =>
    have hlength := length_le_length_intercalate (.punct .comma) BinElement.render
      fun element hmem => (hopens element hmem).length_pos
    have hread : Reads (separated (limit + 1) .comma (binElement (limit + 1)
        (primaryWithin (limit + 1) (exprWithin limit) depth)))
        (commas ((element :: elements).map BinElement.render))
        (fun ahead => ahead = some (.punct .closeBinary)) (element :: elements) := by
      refine reads_separated hitems (List.cons_ne_nil element elements)
        (Nat.le_succ_of_le (Nat.le_trans hlength hlimit)) (follows_of_joins?_eq_none rfl) ?_
      rintro ahead rfl
      exact ⟨follows_of_joins?_eq_none rfl, by simp⟩
    obtain ⟨lexeme, behind, reach, hrender, hlexeme, -⟩ := hopens element List.mem_cons_self
    obtain ⟨more, hmore⟩ := exists_intercalate_cons (.punct .comma) lexeme behind
      (elements.map BinElement.render)
    refine leads_eat_ne ?_ (hread.bind (leads_expectPunct Reads.pure) fun _ _ => rfl)
    rw [List.map_cons, hrender, commas, hmore]
    rintro ahead _ ⟨⟩
    cases hlexeme

end Elements

end Expr

end HeaderForms
