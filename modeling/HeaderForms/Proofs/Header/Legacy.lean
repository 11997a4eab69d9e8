-- SUMMARY: The legacy encoding of typed records gives the same forms.
import HeaderForms.Proofs.Header.Account

/-!
# The legacy encoding of records

In the legacy encoding a record with typed fields is two declarations, and a record whose name has a
typed half has no outcome of its own. So the form of a header and its diagnostics are those of the
plain encoding, where the records without types are left out whose names also have a record with
types.
-/

namespace HeaderForms

namespace Declaration

/-! ## Records -/

def recordName? : Declaration → Option String
  | .record name _ => some name
  | _ => none

/-- The name of a record with typed fields. -/
def typedName? : Declaration → Option String
  | .record name fields => if fields.any (·.type.isSome) then some name else none
  | _ => none

/-- A record without typed fields that has one of these names. -/
def isShadowed (typed : List String) : Declaration → Bool
  | .record name fields => !fields.any (·.type.isSome) && typed.contains name
  | _ => false

end Declaration

namespace Header

/-- The header without the records that have no types where another record of their name has. -/
def dropShadowed (header : Header) : Header :=
  let typed := header.declarations.filterMap (·.declaration.typedName?)
  { header with
    declarations := header.declarations.filter fun located =>
      !located.declaration.isShadowed typed }

/-- The declarations that one declaration is in the legacy encoding. -/
def legacyDeclarations (located : LocatedDeclaration) : List LocatedDeclaration :=
  (splitRecord true located.declaration).map (⟨located.line, ·⟩)

/-! ## Legacy readings -/

theorem splitRecord_of_typed {fields : List RecordFieldDecl}
    (h : fields.any (·.type.isSome) = true) (name : String) :
    splitRecord true (.record name fields) =
      [.record name (fields.map .untyped), .recordType name fields] := by
  rw [splitRecord, h]
  rfl

theorem splitRecord_of_untyped {fields : List RecordFieldDecl}
    (h : fields.any (·.type.isSome) = false) (name : String) :
    splitRecord true (.record name fields) = [.record name fields] := by
  rw [splitRecord, h]
  rfl

theorem readPlain_true (context : FileContext) (macros : MacroTable) (chunk : List Token) :
    readPlain true context macros chunk =
      (readPlain false context macros chunk).map (List.flatMap (splitRecord true)) := by
  unfold readPlain
  cases Expansion.expand macros context chunk with
  | error => rfl
  | ok tokens =>
    simp only [bind, Except.bind]
    cases Declaration.ofTokens tokens with
    | error => rfl
    | ok declaration =>
      simp [splitRecord_false, pure, Except.pure, Except.map]

theorem readChunk_true (context : FileContext) (macros : MacroTable) (chunk : List Token) :
    readChunk true context macros chunk =
      ((readChunk false context macros chunk).1.flatMap (splitRecord true),
        (readChunk false context macros chunk).2) := by
  unfold readChunk
  split
  case h_1 => cases Directive.readDefine chunk <;> rfl
  case h_2 => cases Directive.readUndef chunk <;> rfl
  case h_3 =>
    split
    case h_1 => rfl
    case h_2 =>
      rw [readPlain_true]
      cases readPlain false context macros chunk <;> rfl

theorem readChunks_true (context : FileContext) (macros : MacroTable)
    (chunks : List (List Token)) :
    readChunks true context macros chunks =
      ((readChunks false context macros chunks).1.flatMap legacyDeclarations,
        (readChunks false context macros chunks).2) := by
  induction chunks generalizing macros with
  | nil => rfl
  | cons chunk chunks ih =>
    have hline : ∀ (line : Nat) (declarations : List Declaration),
        (declarations.flatMap (splitRecord true)).map (LocatedDeclaration.mk line) =
          (declarations.map (LocatedDeclaration.mk line)).flatMap legacyDeclarations := by
      intro line declarations
      rw [List.map_flatMap, List.flatMap_map]
      rfl
    rw [readChunks, readChunks]
    split
    case isTrue => simp only [readChunk_true, ih, hline, List.flatMap_append]
    case isFalse => rfl

theorem ofTokens_true (file : String) (tokens : List Token) :
    ofTokens true file tokens =
      ⟨(ofTokens false file tokens).declarations.flatMap legacyDeclarations,
        (ofTokens false file tokens).macros⟩ := by
  unfold ofTokens
  rw [readChunks_true, List.flatMap_append]
  rfl

/-! ## Legacy outcomes -/

theorem typedRecord?_legacyDeclarations {located : LocatedDeclaration}
    (h : located.declaration.typedRecord? = none) :
    (legacyDeclarations located).filterMap (·.declaration.typedRecord?) =
      located.declaration.typedName?.toList := by
  obtain ⟨line, declaration⟩ := located
  cases declaration with
  | record name fields =>
    simp only [legacyDeclarations, splitRecord, Bool.true_and, Declaration.typedName?]
    split <;> rfl
  | recordType => cases h
  | _ => rfl

section

variable {α : Type} {select : Declaration.Outcome → Option α} (hselect : select .nothing = none)
  {typed : List String}

include hselect

theorem outcomes_record (line : Nat) {name : String} {fields : List RecordFieldDecl}
    (htyped : fields.any (·.type.isSome) → name ∈ typed) :
    ((legacyDeclarations ⟨line, .record name fields⟩).map
        (·.declaration.outcome typed)).filterMap select =
      if (Declaration.record name fields).isShadowed typed then []
      else (select ((Declaration.record name fields).outcome [])).toList := by
  cases htypes : fields.any (·.type.isSome) with
  | true =>
    have hmem : typed.contains name = true := by simpa using htyped htypes
    have hnothing : (Declaration.record name (fields.map .untyped)).outcome typed = .nothing :=
      if_pos hmem
    simp only [legacyDeclarations, splitRecord_of_typed htypes, List.map_cons, List.map_nil,
      hnothing, List.filterMap_cons_none hselect, Declaration.isShadowed, htypes]
    exact List.filterMap_cons
  | false =>
    have hshadowed : (Declaration.record name fields).isShadowed typed = typed.contains name := by
      rw [Declaration.isShadowed, htypes]
      rfl
    rw [hshadowed, legacyDeclarations, splitRecord_of_untyped htypes]
    split
    case isTrue hmem =>
      have hnothing : (Declaration.record name fields).outcome typed = .nothing := if_pos hmem
      simp only [List.map_cons, List.map_nil, hnothing, List.filterMap_cons_none hselect,
        List.filterMap_nil]
    case isFalse hmem =>
      have hsame : (Declaration.record name fields).outcome typed =
          (Declaration.record name fields).outcome [] := if_neg hmem
      simp only [List.map_cons, List.map_nil, hsame]
      exact List.filterMap_cons

/-- A declaration has the same outcomes in the legacy encoding, save those that are nothing. -/
theorem outcomes_legacyDeclarations {located : LocatedDeclaration}
    (h : located.declaration.typedRecord? = none)
    (htyped : ∀ name ∈ located.declaration.typedName?, name ∈ typed) :
    ((legacyDeclarations located).map (·.declaration.outcome typed)).filterMap select =
      if located.declaration.isShadowed typed then []
      else (select (located.declaration.outcome [])).toList := by
  obtain ⟨line, declaration⟩ := located
  cases declaration with
  | record name fields =>
    exact outcomes_record hselect line fun hany => htyped name (if_pos hany)
  | recordType => cases h
  | _ => exact List.filterMap_cons

/-- The outcomes in the legacy encoding are those of the declarations that are not shadowed, save
those that are nothing. -/
theorem filterMap_outcomes_legacy {declarations : List LocatedDeclaration}
    (huntyped : ∀ located ∈ declarations, located.declaration.typedRecord? = none)
    (htyped : ∀ located ∈ declarations, ∀ name ∈ located.declaration.typedName?, name ∈ typed) :
    ((declarations.flatMap legacyDeclarations).map (·.declaration.outcome typed)).filterMap
        select =
      ((declarations.filter fun located => !located.declaration.isShadowed typed).map
        (·.declaration.outcome [])).filterMap select := by
  induction declarations with
  | nil => rfl
  | cons located declarations ih =>
    obtain ⟨hlocated, huntyped⟩ := List.forall_mem_cons.1 huntyped
    obtain ⟨hname, htyped⟩ := List.forall_mem_cons.1 htyped
    rw [List.flatMap_cons, List.map_append, List.filterMap_append, ih huntyped htyped,
      outcomes_legacyDeclarations hselect hlocated hname]
    cases hshadowed : located.declaration.isShadowed typed with
    | true =>
      rw [List.filter_cons_of_neg (by simp [hshadowed])]
      rfl
    | false =>
      rw [List.filter_cons_of_pos (by simp [hshadowed]), List.map_cons, List.filterMap_cons]
      cases select (located.declaration.outcome []) <;> rfl

end

/-- The form of a header is that of its macros and of its outcomes that are something. -/
theorem toForm_congr {header header' : Header} (hmacros : header.macros = header'.macros)
    (h : ∀ {α : Type} {select : Declaration.Outcome → Option α}, select .nothing = none →
      header.outcomes.filterMap select = header'.outcomes.filterMap select) (session : Session) :
    header.toForm session = header'.toForm session := by
  rw [toForm_eq, toForm_eq, items, items, errors, errors, warnings, warnings, hmacros,
    h rfl, h rfl, h rfl, h rfl]

theorem eq_of_recordName? {declarations : List LocatedDeclaration}
    (h : (declarations.filterMap (·.declaration.recordName?)).Nodup)
    {located other : LocatedDeclaration} (hlocated : located ∈ declarations)
    (hother : other ∈ declarations) {name : String}
    (hname : located.declaration.recordName? = some name)
    (hname' : other.declaration.recordName? = some name) : located = other := by
  by_contra hne
  have hsymm : Std.Symm fun located other : LocatedDeclaration =>
      ∀ name, located.declaration.recordName? = some name →
        ∀ name', other.declaration.recordName? = some name' → name ≠ name' :=
    ⟨fun _ _ hdistinct name hname name' hname' => (hdistinct name' hname' name hname).symm⟩
  exact (List.pairwise_filterMap.1 h).forall hlocated hother hne name hname name hname' rfl

theorem exists_record_of_typedName? {declaration : Declaration} {name : String}
    (h : declaration.typedName? = some name) :
    ∃ fields, declaration = .record name fields ∧ fields.any (·.type.isSome) = true := by
  cases declaration with
  | record other fields =>
    obtain ⟨htypes, heq⟩ := Option.ite_none_right_eq_some.1 h
    cases heq
    exact ⟨fields, rfl, htypes⟩
  | _ => cases h

theorem exists_record_of_isShadowed {declaration : Declaration} {typed : List String}
    (h : declaration.isShadowed typed = true) :
    ∃ name fields, declaration = .record name fields ∧ fields.any (·.type.isSome) = false ∧
      name ∈ typed := by
  cases declaration with
  | record name fields =>
    obtain ⟨htypes, hname⟩ := Bool.and_eq_true_iff.1 h
    exact ⟨name, fields, rfl, by simpa using htypes, by simpa using hname⟩
  | _ => cases h

/-- Where each record is the only one of its name, none is shadowed. -/
theorem dropShadowed_of_nodup {header : Header}
    (h : (header.declarations.filterMap (·.declaration.recordName?)).Nodup) :
    header.dropShadowed = header := by
  have hkept : ∀ located ∈ header.declarations,
      (!located.declaration.isShadowed
        (header.declarations.filterMap (·.declaration.typedName?))) = true := by
    intro located hlocated
    by_contra hshadowed
    obtain ⟨name, fields, hrecord, htypes, hmem⟩ :=
      exists_record_of_isShadowed (by simpa using hshadowed)
    obtain ⟨other, hother, hname⟩ := List.mem_filterMap.1 hmem
    obtain ⟨fields', hrecord', htypes'⟩ := exists_record_of_typedName? hname
    have heq := eq_of_recordName? h hlocated hother
      (show located.declaration.recordName? = some name by rw [hrecord]; rfl)
      (by rw [hrecord']; rfl)
    rw [← heq, hrecord] at hrecord'
    cases hrecord'
    rw [htypes] at htypes'
    cases htypes'
  rw [dropShadowed, List.filter_eq_self.2 hkept]

theorem toForm_ofTokens_true (file : String) (tokens : List Token) (session : Session) :
    (ofTokens true file tokens).toForm session =
      (ofTokens false file tokens).dropShadowed.toForm session := by
  generalize hplain : ofTokens false file tokens = plain
  have huntyped := untyped_ofTokens file tokens
  rw [hplain] at huntyped
  have hnone : ∀ located ∈ plain.declarations, located.declaration.typedRecord? = none :=
    List.filterMap_eq_nil_iff.1 huntyped
  have htyped : (plain.declarations.flatMap legacyDeclarations).filterMap
      (·.declaration.typedRecord?) = plain.declarations.filterMap (·.declaration.typedName?) := by
    rw [List.filterMap_flatMap, List.filterMap_eq_flatMap_toList]
    exact List.flatMap_congr fun located hlocated =>
      typedRecord?_legacyDeclarations (hnone located hlocated)
  have hdropped : plain.dropShadowed.declarations.filterMap (·.declaration.typedRecord?) = [] :=
    List.filterMap_eq_nil_iff.2 fun located hlocated => hnone located (List.mem_filter.1 hlocated).1
  rw [ofTokens_true, hplain]
  refine toForm_congr ?_ (fun hselect => ?_) session
  · rfl
  · simp only [outcomes, DeclarationForms.outcomes, htyped, hdropped]
    exact filterMap_outcomes_legacy hselect hnone fun located hlocated name hname =>
      List.mem_filterMap.2 ⟨located, hlocated, hname⟩

/-- The legacy encoding of records changes neither which headers are read nor, once the untyped
records of typed names are left out, their forms and diagnostics. -/
theorem toForm_legacy (file source : String) :
    (∃ error, ofText false file source = .error error ∧ ofText true file source = .error error) ∨
    ∃ plain legacy, ofText false file source = .ok plain ∧ ofText true file source = .ok legacy ∧
      (∀ session, legacy.toForm session = plain.dropShadowed.toForm session) ∧
      ((plain.declarations.filterMap (·.declaration.recordName?)).Nodup →
        ∀ session, legacy.toForm session = plain.toForm session) := by
  cases htokens : Token.ofText source with
  | error error => exact .inl ⟨error, by rw [ofText, htokens]; rfl, by rw [ofText, htokens]; rfl⟩
  | ok tokens =>
    refine .inr ⟨ofTokens false file tokens, ofTokens true file tokens,
      by rw [ofText, htokens]; rfl, by rw [ofText, htokens]; rfl,
      toForm_ofTokens_true file tokens, fun hnodup session => ?_⟩
    rw [toForm_ofTokens_true, dropShadowed_of_nodup hnodup]

end Header

end HeaderForms
