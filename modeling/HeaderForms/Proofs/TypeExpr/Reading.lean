-- SUMMARY: How the grammar reads each construct of types.
import HeaderForms.Proofs.Expr.RoundTrip
import HeaderForms.Proofs.TypeExpr.Balance
import HeaderForms.Proofs.TypeExpr.Levels

/-!
# Reading the constructs of types

A type is readable when the grammar reads it at every position from what stands for it there. Each
construct is readable when its parts are: the grammar tells the constructs apart by the lexemes they
begin with, and what may follow a type, by position, never joins it. Types begin with lexemes that
expressions begin with as well, so the rules for items in brackets are those of expressions.
-/

namespace HeaderForms

open HeaderForms.Parser HeaderForms.Render
open HeaderForms.Expr (Closes reads_bracketed closes_brace closes_bracket reads_expectInteger)

/-! ## Readable types -/

namespace TypeExpr

/-- The grammar reads the type at every position from what stands for it there. -/
structure Readable (type : TypeExpr) : Prop where
  opens : Opens 0 type.render
  plain : Plain (type.renderAt 3)
  readsAt : ∀ limit position, position ≤ 3 → (type.renderAt position).length ≤ limit + 1 →
    Reads (typeLevelAt limit position) (type.renderAt position) (TypeFollows position) type

variable {type : TypeExpr}

theorem plain_renderAt (h : type.level = 3 → Plain type.render) : Plain (type.renderAt 3) := by
  obtain hlt | hle := Nat.lt_or_ge type.level 3
  · rw [renderAt_of_lt hlt]
    exact fun name behind heq => by cases heq
  · rw [renderAt_of_le hle]
    exact h (Nat.le_antisymm type.level_le hle)

/-- A type that is read at its own level is read in parentheses at the positions behind it. -/
theorem readable_of_reads (hopens : Opens 0 type.render) (hplain : type.level = 3 → Plain type.render)
    (h : ∀ limit, type.render.length ≤ limit + 1 →
      Reads (typeLevelAt limit type.level) type.render (TypeFollows type.level) type) :
    Readable type := by
  refine ⟨hopens, plain_renderAt hplain, fun limit position hposition hlimit => ?_⟩
  obtain hlt | hle := Nat.lt_or_ge type.level position
  · rw [renderAt_of_lt hlt] at hlimit ⊢
    have hlength := hlimit
    rw [List.length_cons, List.length_append, List.length_singleton] at hlength
    obtain ⟨limit, rfl⟩ := Nat.exists_eq_succ_of_ne_zero (show limit ≠ 0 by omega)
    have hinner : Reads (typeWithin (limit + 1)) type.render (TypeFollows 0) type :=
      Reads.of_le (Nat.zero_le _) type.level_le hplain hopens.length_pos (h limit (by omega))
    have hparens : Reads (typeLevelAt (limit + 1) 3)
        (.punct .openParen :: (type.render ++ [.punct .closeParen])) (TypeFollows 3) type :=
      leads_peek (leads_skip (hinner.bind (leads_expectPunct Reads.pure) fun _ _ =>
        typeFollows_of_none rfl))
    exact hparens.of_le hposition (Nat.le_refl 3) (fun _ name behind heq => by cases heq)
      (Nat.succ_pos _)
  · rw [renderAt_of_le hle] at hlimit ⊢
    exact (h limit hlimit).of_le hle type.level_le hplain hopens.length_pos

/-- The lexemes that primary types begin with, but for variables. -/
def begins : Lexeme → Bool
  | .atom _ | .integer _ | .keyword .fun_ => true
  | .punct .minus | .punct .openBracket | .punct .openBrace | .punct .openBinary
  | .punct .hash => true
  | _ => false

/-- A primary type that is no variable is read from its first lexeme on. -/
theorem readable_of_reads_primary {lexeme : Lexeme} {behind : List Lexeme} (hlevel : type.level = 3)
    (hrender : type.render = lexeme :: behind) (hbegins : begins lexeme = true)
    (h : ∀ limit, behind.length ≤ limit →
      Reads (primaryType (limit + 1) (typeWithin limit)) (lexeme :: behind) (TypeFollows 3) type) :
    Readable type := by
  have hopens : ∃ reach, lexeme.opens? = some reach := by
    unfold begins at hbegins
    split at hbegins <;> first | exact ⟨_, rfl⟩ | cases hbegins
  obtain ⟨reach, hreach⟩ := hopens
  refine readable_of_reads ?_ (fun _ => ?_) fun limit hlimit => ?_
  · rw [hrender]
    exact opens_cons hreach (Nat.zero_le reach)
  · rw [hrender]
    rintro name _ ⟨⟩
    cases hbegins
  · rw [hlevel]
    rw [hrender] at hlimit ⊢
    exact h limit (Nat.le_of_succ_le_succ hlimit)

namespace Readable

variable {limit : Nat}

theorem reads_nested (h : Readable type) (hlimit : type.render.length ≤ limit) :
    Reads (typeWithin limit) type.render (TypeFollows 0) type := by
  have hpos := h.opens.length_pos
  obtain ⟨limit, rfl⟩ := Nat.exists_eq_succ_of_ne_zero (show limit ≠ 0 by omega)
  rw [← renderAt_zero] at hlimit ⊢
  exact h.readsAt limit 0 (Nat.zero_le 3) hlimit

theorem reads_primary (h : Readable type) (hlimit : (type.renderAt 3).length ≤ limit + 1) :
    Reads (primaryType (limit + 1) (typeWithin limit)) (type.renderAt 3) (TypeFollows 3) type :=
  h.readsAt limit 3 (Nat.le_refl 3) hlimit

theorem length_pos (h : Readable type) (position : Nat) : 0 < (type.renderAt position).length :=
  (opens_renderAt h.opens position).length_pos

end Readable

/-! ## Names and numbers -/

theorem readable_var (name : String) : Readable (.var name) := by
  refine readable_of_reads (opens_cons rfl (Nat.zero_le 10)) (fun _ => ?_) fun limit _ => ?_
  · rintro _ _ ⟨⟩
    rfl
  · exact leads_peek (leads_skip Reads.pure)

theorem readable_atom (name : String) : Readable (.atom name) := by
  refine readable_of_reads_primary rfl rfl rfl fun limit _ => leads_peek (leads_skip ?_)
  refine leads_atPunct_ne (fun ahead hahead => hahead.ne_some rfl (Nat.le_refl 3)) ?_
  exact leads_eat_ne (fun ahead hahead => hahead.ne_some rfl (Nat.le_refl 3)) Reads.pure

/-- A number is read with its sign, or from its only lexeme. -/
theorem readable_integer (value : Int) : Readable (.integer value) := by
  have hread : ∀ follow, Reads (TypeExpr.integer <$> expectInteger) (ofInt value) follow
      (.integer value) := fun follow => (reads_expectInteger value).map
  by_cases hsign : value < 0
  · have hvalue : ofInt value = [.punct .minus, .integer value.natAbs] := if_pos hsign
    rw [hvalue] at hread
    exact readable_of_reads_primary rfl hvalue rfl fun _ _ => leads_peek (hread _)
  · have hvalue : ofInt value = [.integer value.natAbs] := if_neg hsign
    rw [hvalue] at hread
    exact readable_of_reads_primary rfl hvalue rfl fun _ _ => leads_peek (hread _)

theorem readable_nil : Readable .nil :=
  readable_of_reads_primary rfl rfl rfl fun _ _ =>
    leads_peek (leads_skip (leads_eat Reads.pure))

theorem readable_anyFun : Readable .anyFun :=
  readable_of_reads_primary rfl rfl rfl fun _ _ =>
    leads_peek (leads_skip (leads_expectPunct (leads_eat Reads.pure)))

/-! ## Brackets -/

section Brackets

variable {limit rounds : Nat} {follow : Option Lexeme → Prop}

/-- What neither joins a type nor begins one ends an item. -/
theorem typeFollows_of_closes {close : Punct} (hjoins : (Lexeme.punct close).joinsType? = none)
    {ahead : Option Lexeme} {position : Nat}
    (hahead : ahead = some (.punct .comma) ∨ ahead = some (.punct close)) :
    TypeFollows position ahead := by
  obtain rfl | rfl := hahead
  · exact typeFollows_of_none rfl
  · exact typeFollows_of_none hjoins

theorem reads_types {types : List TypeExpr} (htypes : ∀ type ∈ types, Readable type) {close : Punct}
    (hclose : Closes close) (hjoins : (Lexeme.punct close).joinsType? = none)
    (hlimit : (commas (types.map render)).length ≤ limit) (hrounds : limit ≤ rounds) :
    Reads (delimited rounds close (typeWithin limit))
      (commas (types.map render) ++ [.punct close]) follow types := by
  refine reads_bracketed hclose (fun type htype => (htypes type htype).opens) ?_
    (Nat.le_trans hlimit hrounds)
  intro type htype
  have hlength := Nat.le_trans (length_le_intercalate (.punct .comma) render htype) hlimit
  exact ((htypes type htype).reads_nested hlength).mono fun ahead hahead =>
    typeFollows_of_closes hjoins hahead

theorem reads_typeArguments {args : List TypeExpr} (hargs : ∀ arg ∈ args, Readable arg)
    (hlimit : (commas (args.map render)).length ≤ limit) (hrounds : limit ≤ rounds) :
    Reads (typeArguments rounds (typeWithin limit))
      (.punct .openParen :: (commas (args.map render) ++ [.punct .closeParen])) follow args :=
  leads_expectPunct (reads_types hargs ⟨by decide, rfl, rfl⟩ rfl hlimit hrounds)

theorem readable_named (module : Option String) (name : String) {args : List TypeExpr}
    (hargs : ∀ arg ∈ args, Readable arg) : Readable (.named module name args) := by
  cases module with
  | none =>
    refine readable_of_reads_primary rfl (by rw [render, renders_eq_map]) rfl
      fun limit hlimit => leads_peek (leads_skip (leads_atPunct ?_))
    rw [List.length_cons, List.length_append] at hlimit
    exact (reads_typeArguments hargs (by omega) (Nat.le_succ limit)).bind_pure
  | some module =>
    refine readable_of_reads_primary rfl (by rw [render, renders_eq_map]) rfl
      fun limit hlimit => leads_peek (leads_skip ?_)
    refine leads_atPunct_cons_ne (by simp) (leads_eat (leads_expectAtom ?_))
    rw [List.length_cons, List.length_cons, List.length_cons, List.length_append] at hlimit
    exact (reads_typeArguments hargs (by omega) (Nat.le_succ limit)).bind_pure

theorem readable_tuple {items : List TypeExpr} (hitems : ∀ item ∈ items, Readable item) :
    Readable (.tuple items) := by
  refine readable_of_reads_primary rfl (by rw [render, renders_eq_map]) rfl
    fun limit hlimit => leads_peek (leads_skip ?_)
  rw [List.length_append] at hlimit
  exact (reads_types hitems closes_brace rfl (Nat.le_of_add_right_le hlimit)
    (Nat.le_succ limit)).bind_pure

theorem readable_list {item : TypeExpr} (hitem : Readable item) : Readable (.list item) := by
  refine readable_of_reads_primary rfl (by rw [render]) rfl
    fun limit hlimit => leads_peek (leads_skip ?_)
  rw [List.length_append] at hlimit
  have hread := hitem.reads_nested (Nat.le_of_add_right_le hlimit)
  refine leads_eat_ne (fun ahead _ => hitem.opens.head?_ne rfl _ ahead) ?_
  refine hread.bind (leads_eat_cons_ne (by simp) (leads_expectPunct Reads.pure)) fun _ _ => ?_
  exact typeFollows_of_none rfl

theorem readable_nonEmptyList {item : TypeExpr} (hitem : Readable item) :
    Readable (.nonEmptyList item) := by
  refine readable_of_reads_primary rfl (by rw [render]) rfl
    fun limit hlimit => leads_peek (leads_skip ?_)
  rw [List.length_append] at hlimit
  have hread := hitem.reads_nested (Nat.le_of_add_right_le hlimit)
  refine leads_eat_ne (fun ahead _ => hitem.opens.head?_ne rfl _ ahead) ?_
  refine hread.bind (leads_eat (leads_expectPunct (leads_expectPunct Reads.pure))) fun _ _ => ?_
  exact typeFollows_of_none rfl

/-! ### Maps and records -/

theorem reads_mapFieldType {field : MapFieldType} (hparts : ∀ part ∈ field.parts, Readable part)
    (hlimit : field.render.length ≤ limit) :
    Reads (mapFieldType (typeWithin limit)) field.render
      (fun ahead => ahead = some (.punct .comma) ∨ ahead = some (.punct .closeBrace)) field := by
  obtain ⟨key, value, exact⟩ := field
  have hkey : Readable key := hparts key (by simp [MapFieldType.parts])
  have hvalue : Readable value := hparts value (by simp [MapFieldType.parts])
  rw [MapFieldType.render] at hlimit ⊢
  rw [List.length_append, List.length_cons] at hlimit
  have hread : Reads (typeWithin limit) value.render
      (fun ahead => ahead = some (.punct .comma) ∨ ahead = some (.punct .closeBrace)) value :=
    (hvalue.reads_nested (by omega)).mono fun ahead hahead => typeFollows_of_closes rfl hahead
  refine (hkey.reads_nested (by omega)).bind (leads_take ?_ hread.bind_pure) fun _ _ => ?_
  · cases exact <;> rfl
  · cases exact <;> exact typeFollows_of_none rfl

theorem reads_fieldType {field : FieldType} (htype : Readable field.type)
    (hlimit : field.render.length ≤ limit) :
    Reads (fieldType (typeWithin limit)) field.render
      (fun ahead => ahead = some (.punct .comma) ∨ ahead = some (.punct .closeBrace)) field := by
  obtain ⟨name, type⟩ := field
  rw [FieldType.render, List.length_cons, List.length_cons] at hlimit
  have hread := htype.reads_nested (Nat.le_of_succ_le (Nat.le_of_succ_le hlimit))
  refine leads_expectAtom (leads_expectPunct (Reads.mono hread ?_).bind_pure)
  exact fun ahead hahead => typeFollows_of_closes rfl hahead

theorem readable_map {fields : List MapFieldType}
    (hparts : ∀ field ∈ fields, ∀ part ∈ field.parts, Readable part) : Readable (.map fields) := by
  refine readable_of_reads_primary rfl (by rw [render, mapRenders_eq_map]) rfl
    fun limit hlimit => leads_peek (leads_skip (leads_eat ?_))
  rw [List.length_cons, List.length_append] at hlimit
  have hlength : (commas (fields.map MapFieldType.render)).length ≤ limit := by omega
  refine (reads_bracketed closes_brace ?_ ?_ (Nat.le_succ_of_le hlength)).bind_pure
  · rintro ⟨key, value, exact⟩ hmem
    have hkey : Readable key := hparts _ hmem key (by simp [MapFieldType.parts])
    exact hkey.opens.append _
  · intro field hmem
    have hfield := length_le_intercalate (.punct .comma) MapFieldType.render hmem
    exact reads_mapFieldType (hparts field hmem) (Nat.le_trans hfield hlength)

theorem readable_record {name : String} {fields : List FieldType}
    (htypes : ∀ field ∈ fields, Readable field.type) : Readable (.record name fields) := by
  refine readable_of_reads_primary rfl (by rw [render, fieldRenders_eq_map]) rfl
    fun limit hlimit => leads_peek (leads_skip ?_)
  rw [List.length_cons, List.length_cons, List.length_append] at hlimit
  have hlength : (commas (fields.map FieldType.render)).length ≤ limit := by omega
  refine leads_eat_cons_ne (by simp) (leads_expectAtom (leads_expectPunct ?_))
  refine (reads_bracketed closes_brace ?_ ?_ (Nat.le_succ_of_le hlength)).bind_pure
  · rintro ⟨field, type⟩ _
    exact opens_cons rfl (Nat.zero_le 10)
  · intro field hmem
    have hfield := length_le_intercalate (.punct .comma) FieldType.render hmem
    exact reads_fieldType (htypes field hmem) (Nat.le_trans hfield hlength)

/-! ### Functions -/

theorem reads_result {result : TypeExpr} (hresult : Readable result)
    (hlimit : result.render.length ≤ limit) :
    Reads (funTypeRest.result (typeWithin limit))
      (.punct .arrow :: (result.render ++ [.punct .closeParen])) follow result :=
  leads_expectPunct ((hresult.reads_nested hlimit).bind (leads_expectPunct Reads.pure) fun _ _ =>
    typeFollows_of_none rfl)

theorem readable_anyArgsFun {result : TypeExpr} (hresult : Readable result) :
    Readable (.anyArgsFun result) := by
  refine readable_of_reads_primary rfl (by rw [render]) rfl fun limit hlimit => ?_
  simp only [List.length_cons, List.length_append] at hlimit
  refine leads_peek (leads_skip (leads_expectPunct (leads_eat_cons_ne (by simp) ?_)))
  refine leads_expectPunct (leads_eat (leads_expectPunct ?_))
  exact (reads_result hresult (by omega)).map

/-- Arguments in parentheses begin neither with an ellipsis nor with another lexeme that no type
begins with. -/
theorem head?_types_ne {types : List TypeExpr} (htypes : ∀ type ∈ types, Readable type)
    {close : Punct} {lexeme : Lexeme} (hlexeme : lexeme.opens? = none) (hne : .punct close ≠ lexeme)
    (more : List Lexeme) (ahead : Option Lexeme) :
    (commas (types.map render) ++ .punct close :: more).head?.or ahead ≠ some lexeme := by
  cases types with
  | nil => exact fun heq => hne (Option.some.inj heq)
  | cons type types =>
    have hopens := (htypes type List.mem_cons_self).opens
    obtain ⟨first, behind, reach, hrender, hreach, hle⟩ := hopens
    obtain ⟨others, hothers⟩ := exists_intercalate_cons (.punct .comma) first behind
      (types.map render)
    rw [List.map_cons, hrender, commas, hothers]
    exact (opens_cons hreach hle).head?_ne hlexeme _ ahead

theorem readable_fun {args : List TypeExpr} {result : TypeExpr} (hargs : ∀ arg ∈ args, Readable arg)
    (hresult : Readable result) : Readable (.fun_ args result) := by
  refine readable_of_reads_primary rfl (by rw [render, renders_eq_map]) rfl fun limit hlimit => ?_
  simp only [List.length_cons, List.length_append] at hlimit
  refine leads_peek (leads_skip (leads_expectPunct (leads_eat_cons_ne (by simp) ?_)))
  refine leads_expectPunct (leads_eat_ne (fun ahead _ => head?_types_ne hargs rfl (by simp) _ ahead) ?_)
  have hread : Reads (delimited (limit + 1) .closeParen (typeWithin limit))
      (commas (args.map render) ++ [.punct .closeParen]) (fun _ => True) args :=
    reads_types hargs ⟨by decide, rfl, rfl⟩ rfl (by omega) (Nat.le_succ limit)
  rw [List.append_cons]
  exact hread.bind (reads_result hresult (by omega)).map fun _ _ => trivial

end Brackets

/-! ## Bit strings -/

theorem reads_bitSegment (segment : BitSegment) {follow : Option Lexeme → Prop} :
    Reads bitSegment segment.render follow segment := by
  cases segment with
  | base bits =>
    have hnumber : ∀ ahead, follow ahead → ∀ lexeme ∈ (ofInt bits).head?.or ahead,
        varName? lexeme = none := by
      intro ahead _ lexeme hlexeme
      unfold ofInt at hlexeme
      split at hlexeme <;> cases hlexeme <;> rfl
    exact leads_take rfl (leads_expectPunct (leads_take?_none hnumber (reads_expectInteger bits).map))
  | unit bits =>
    exact leads_take rfl (leads_expectPunct (leads_take? rfl (leads_expectPunct
      (reads_expectInteger bits).map)))

theorem readable_bitstring (base unit : Int) : Readable (.bitstring base unit) := by
  refine readable_of_reads_primary rfl (by rw [render]) rfl fun limit hlimit => ?_
  refine leads_peek (leads_skip ?_)
  have hvalue := bitstring_bitSegments base unit
  generalize bitSegments base unit = segments at hvalue hlimit ⊢
  cases segments with
  | nil =>
    rw [← hvalue]
    exact leads_eat Reads.pure
  | cons segment segments =>
    have hitems : ∀ value ∈ segment :: segments,
        Reads bitSegment value.render (fun _ => True) value :=
      fun value _ => reads_bitSegment value
    have hpos : ∀ value ∈ segment :: segments, 0 < value.render.length := by
      intro value _
      cases value <;> exact Nat.succ_pos _
    have hlength := length_le_length_intercalate (.punct .comma) BitSegment.render hpos
    rw [List.length_append, commas] at hlimit
    have hread : Reads (separated (limit + 1) .comma bitSegment)
        (commas ((segment :: segments).map BitSegment.render))
        (fun ahead => ahead = some (.punct .closeBinary)) (segment :: segments) := by
      refine reads_separated hitems (List.cons_ne_nil _ _) (by omega) trivial ?_
      rintro ahead rfl
      exact ⟨trivial, by decide⟩
    rw [← hvalue]
    refine leads_eat_ne (fun ahead _ => ?_) ?_
    · obtain ⟨behind, hrender⟩ : ∃ behind, segment.render = .var "_" :: behind := by
        cases segment <;> exact ⟨_, rfl⟩
      obtain ⟨more, hmore⟩ := exists_intercalate_cons (.punct .comma) (.var "_") behind
        (segments.map BitSegment.render)
      rw [List.map_cons, hrender, commas, hmore]
      simp
    · exact hread.bind (leads_expectPunct Reads.pure) fun _ _ => rfl

/-! ## Ranges, annotated types and unions -/

theorem readable_range {low high : TypeExpr} (hlow : Readable low) (hhigh : Readable high) :
    Readable (.range low high) := by
  refine readable_of_reads ((opens_renderAt hlow.opens 3).append _) nofun fun limit hlimit => ?_
  change (low.renderAt 3 ++ .punct .range :: high.renderAt 3).length ≤ limit + 1 at hlimit
  change Reads (alternativeType (limit + 1) (typeWithin limit))
    (low.renderAt 3 ++ .punct .range :: high.renderAt 3) (TypeFollows 2) (.range low high)
  rw [List.length_append, List.length_cons] at hlimit
  have hright : Reads (primaryType (limit + 1) (typeWithin limit)) (high.renderAt 3)
      (TypeFollows 2) high :=
    (hhigh.reads_primary (by omega)).mono fun ahead hahead => hahead.mono (by decide)
  have hrange : Leads (do
      let low ← primaryType (limit + 1) (typeWithin limit)
      if ← eatPunct .range then return .range low (← primaryType (limit + 1) (typeWithin limit))
      return low) (low.renderAt 3 ++ .punct .range :: high.renderAt 3) (TypeFollows 2)
      (pure (.range low high)) :=
    (hlow.reads_primary (by omega)).bind (leads_eat hright.bind_pure) fun _ _ =>
      typeFollows_of_some rfl (by decide)
  obtain ⟨lexeme, behind, hrender⟩ := List.exists_cons_of_length_pos (hlow.length_pos 3)
  rw [hrender] at hrange ⊢
  refine leads_alternativeType (fun name hname ahead _ => ?_) hrange
  rw [hlow.plain name behind (hname ▸ hrender)]
  simp

theorem readable_annotated (name : String) {type : TypeExpr} (htype : Readable type) :
    Readable (.annotated name type) := by
  refine readable_of_reads (opens_cons rfl (Nat.zero_le 10)) nofun fun limit hlimit => ?_
  have hread : Reads (typeWithin limit) type.render (TypeFollows 1) type :=
    (htype.reads_nested (Nat.le_of_succ_le (Nat.le_of_succ_le_succ hlimit))).mono
      fun ahead hahead => hahead.zero
  exact leads_peekTwo (leads_skipTwo hread.bind_pure)

theorem exists_alternativeRenders (type : TypeExpr) (types : List TypeExpr) :
    ∃ position more, alternativeRenders (type :: types) = type.renderAt position ++ more ∧
      types.length ≤ more.length := by
  induction types generalizing type with
  | nil => exact ⟨1, [], by rw [alternativeRenders_singleton, List.append_nil], Nat.le_refl 0⟩
  | cons other types ih =>
    obtain ⟨position, more, hrender, hlength⟩ := ih other
    refine ⟨2, _, alternativeRenders_cons type other types, ?_⟩
    rw [hrender, List.length_cons, List.length_cons, List.length_append]
    omega

/-- Alternatives are read as long as a bar follows. -/
theorem reads_alternatives {limit : Nat} {types : List TypeExpr}
    (htypes : ∀ type ∈ types, Readable type) (hne : types ≠ [])
    (hlimit : (alternativeRenders types).length ≤ limit + 1) {rounds : Nat}
    (hrounds : types.length ≤ rounds) (found : List TypeExpr) :
    Reads (separatedFrom .bar (alternativeType (limit + 1) (typeWithin limit)) rounds found)
      (alternativeRenders types) (TypeFollows 0) (found.reverse ++ types) := by
  induction types generalizing rounds found with
  | nil => exact absurd rfl hne
  | cons type types ih =>
    obtain ⟨htype, hothers⟩ := List.forall_mem_cons.1 htypes
    obtain _ | rounds := rounds
    · exact absurd hrounds (by simp)
    rw [separatedFrom]
    cases types with
    | nil =>
      rw [alternativeRenders_singleton] at hlimit ⊢
      have hread := htype.readsAt limit 1 (by decide) hlimit
      rw [← List.append_nil (type.renderAt 1)]
      refine hread.bind (leads_eat_ne ?_ ?_) fun ahead hahead => hahead.mono (by decide)
      · exact fun ahead hahead => hahead.ne_some rfl (by decide)
      · simpa using Reads.pure
    | cons other types =>
      rw [alternativeRenders_cons] at hlimit ⊢
      rw [List.length_append, List.length_cons] at hlimit
      have hread := htype.readsAt limit 2 (by decide) (by omega)
      have hmore := ih hothers (List.cons_ne_nil other types) (by omega)
        (Nat.le_of_succ_le_succ hrounds) (type :: found)
      rw [List.reverse_cons, List.append_assoc, List.singleton_append] at hmore
      exact hread.bind (leads_eat hmore) fun _ _ => typeFollows_of_some rfl (by decide)

theorem readable_union {types : List TypeExpr} (hlength : 2 ≤ types.length)
    (htypes : ∀ type ∈ types, Readable type) : Readable (.union types) := by
  match types with
  | [] | [_] => simp at hlength
  | first :: second :: types =>
    obtain ⟨position, more, hrender, hmore⟩ := exists_alternativeRenders first (second :: types)
    have hpos := (htypes first List.mem_cons_self).length_pos position
    refine readable_of_reads ?_ nofun fun limit hlimit => ?_
    · rw [render, hrender]
      exact (opens_renderAt (htypes first List.mem_cons_self).opens position).append more
    · rw [render] at hlimit ⊢
      have hrounds : (first :: second :: types).length ≤ limit + 1 := by
        rw [hrender, List.length_append] at hlimit
        rw [List.length_cons]
        omega
      exact (reads_alternatives htypes (List.cons_ne_nil _ _) hlimit hrounds []).map

end TypeExpr

end HeaderForms
