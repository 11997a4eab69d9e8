-- SUMMARY: Which texts that the grammar accepts are read, and what is reported of the others.
import HeaderForms.Proofs.Grammar.Place
import HeaderForms.Proofs.Grammar.Reading

/-!
# Precise errors

A text that the grammar accepts is read exactly if the numbers written in it fit their kinds, and
otherwise the leftmost number that does not fit is reported with its place. The builder never comes
upon pairs that it does not expect, and every place reported lies in the text.
-/

namespace HeaderForms

namespace Numeral

/-! ## Numbers in range -/

/-- The number that an optional sign and digits write. -/
def signedNumber (cs : List Char) : Int :=
  if (splitSign cs).1 then -ofDigits 10 0 (splitSign cs).2 else ofDigits 10 0 (splitSign cs).2

theorem int64?_isSome_iff {cs : List Char} (h : Float64.IsDigits (splitSign cs).2) :
    (int64? cs).isSome = true ↔ -2 ^ 63 ≤ signedNumber cs ∧ signedNumber cs < 2 ^ 63 := by
  have hvalue : int64? cs = if inInt64 (signedNumber cs) then some (signedNumber cs) else none :=
    int64?_of_splitSign rfl (natural?_of_digits h.1 h.2) rfl
  have hbound : (int64Bound : Int) = 2 ^ 63 := rfl
  have hrange : inInt64 (signedNumber cs) = true ↔
      -2 ^ 63 ≤ signedNumber cs ∧ signedNumber cs < 2 ^ 63 := by
    simp only [inInt64, hbound, Bool.and_eq_true, decide_eq_true_eq]
  rw [hvalue, ← hrange]
  split <;> simp [*]

theorem byte?_isSome_of_digits {cs : List Char} (h : Float64.IsDigits (stripPlus cs)) :
    (byte? cs).isSome = true ↔ ofDigits 10 0 (stripPlus cs) ≤ 255 := by
  rw [byte?, Option.isSome_map, below?, natural?_of_digits h.1 h.2]
  simp only [Option.bind_eq_bind, Option.bind_some]
  split <;> simp <;> omega

/-- A byte has no minus sign, not even before a zero. -/
theorem byte?_isSome_iff {cs : List Char} (h : Float64.IsDigits (splitSign cs).2) :
    (byte? cs).isSome = true ↔ cs.head? ≠ some '-' ∧ signedNumber cs ≤ 255 := by
  unfold signedNumber
  unfold splitSign at h ⊢
  split at h
  case h_1 digits => exact iff_of_false nofun fun h => h.1 rfl
  case h_2 digits =>
    have hbyte : (byte? ('+' :: digits)).isSome = true ↔ ofDigits 10 0 digits ≤ 255 :=
      byte?_isSome_of_digits h
    rw [hbyte]
    simp
  case h_3 hminus hplus =>
    have hstrip : stripPlus cs = cs := stripPlus.eq_2 cs hplus
    have hhead : cs.head? ≠ some '-' := by
      intro hhead
      obtain ⟨digits, rfl⟩ := List.head?_eq_some_iff.1 hhead
      exact hminus digits rfl
    have hbyte : (byte? cs).isSome = true ↔ ofDigits 10 0 cs ≤ 255 := by
      rw [byte?_isSome_of_digits (hstrip.symm ▸ h), hstrip]
    rw [hbyte]
    simp [hhead]

end Numeral

namespace Form

open Grammar

/-! ## Literals that fit -/

/-- Whether the number that a literal writes is one of its kind. -/
def Fits : LiteralKind × Literal → Prop
  | (.byte, literal) => literal.text.head? ≠ some '-' ∧ Numeral.signedNumber literal.text ≤ 255
  | (.integer, literal) =>
    -2 ^ 63 ≤ Numeral.signedNumber literal.text ∧ Numeral.signedNumber literal.text < 2 ^ 63
  | (.float, literal) => (Float64.parse? literal.text).isSome = true

theorem hasValue_iff_fits {literal : LiteralKind × Literal}
    (h : Reader.isIntegerText literal.2.text = true) : hasValue literal = true ↔ Fits literal := by
  have hdigits := Reader.isDigits_iff.1 h
  obtain ⟨kind, literal⟩ := literal
  cases kind with
  | byte => exact Numeral.byte?_isSome_iff hdigits
  | integer => exact Numeral.int64?_isSome_iff hdigits
  | float => exact Iff.rfl

/-- The text between the byte offsets of the span. -/
def Spans (text : String) (span : Span) (inside : String) : Prop :=
  ∃ before behind : String, text = before ++ inside ++ behind ∧
    span.start = before.utf8ByteSize ∧ span.stop = (before ++ inside).utf8ByteSize

theorem Spans.bounds {text inside : String} {span : Span} (h : Spans text span inside) :
    span.start ≤ span.stop ∧ span.stop ≤ text.utf8ByteSize := by
  obtain ⟨before, behind, rfl, hstart, hstop⟩ := h
  simp only [hstart, hstop, String.utf8ByteSize_append]
  omega

/-- The error is for the leftmost of the literals that does not fit. -/
def Reports (text : String) (literals : List (LiteralKind × Literal)) (error : ReadError) : Prop :=
  ∃ kind literal, (kind, literal) ∈ literals ∧ kind ≠ .float ∧ ¬ Fits (kind, literal) ∧
    error = .invalidLiteral kind (String.ofList literal.text) error.span ∧
    Spans text error.span (String.ofList literal.text) ∧
    ∀ other ∈ literals, ¬ Fits other →
      error.span.start ≤ (Reader.Literal.span text.toList other.2).start

/-- What reading comes to for a text that the grammar accepts with the pairs `program`. -/
structure Precise (text : String) (program : Pair) (result : Except ReadError (List Form)) :
    Prop where
  ok_iff : (∃ forms, result = .ok forms) ↔ ∀ literal ∈ program.literals .integer, Fits literal
  reports : ∀ error, result = .error error → Reports text (program.literals .integer) error
  built : program.buildProgram text.toList = result.mapError .read

/-! ## The first literal that does not fit -/

theorem fault?_mapError {α ε ε' : Type} (x : Except ε α) (f : ε → ε') :
    fault? (x.mapError f) = (fault? x).map f := by
  cases x <;> rfl

theorem ok_iff_fault? {α ε : Type} (x : Except ε α) : (∃ a, x = .ok a) ↔ fault? x = none := by
  cases x <;> simp [fault?]

theorem error_iff_fault? {α ε : Type} (x : Except ε α) (error : ε) :
    x = .error error ↔ fault? x = some error := by
  cases x <;> simp [fault?]

theorem spans_of_placed {text : String} {literal : Literal}
    (h : Placed text.toList [] literal) :
    Spans text (Reader.Literal.span text.toList literal) (String.ofList literal.text) := by
  obtain ⟨before, behind, heq, hafter, -⟩ := h.exists_eq
  refine ⟨String.ofList before, String.ofList behind, ?_, ?_, ?_⟩
  · rw [← String.ofList_append, ← String.ofList_append, List.append_assoc, ← heq,
      String.ofList_toList]
  · rw [span_of_eq heq hafter]
    exact utf8Length_eq _
  · rw [span_of_eq heq hafter, ← String.ofList_append]
    exact utf8Length_eq _

/-- The first literal without a value is the leftmost that does not fit. -/
theorem reports_of_firstFault {text : String} {literals : List (LiteralKind × Literal)}
    {fault : LiteralKind × Literal} (h : InOrder text.toList [] literals)
    (hfault : firstFault literals = some fault) :
    Reports text literals (invalid text.toList fault) := by
  obtain ⟨hvalue, before, behind, rfl, hbefore⟩ := List.find?_eq_some_iff_append.1 hfault
  have hmem : fault ∈ before ++ fault :: behind := by simp
  have hplaced := h.placed fault hmem
  have hfits : ¬ Fits fault := by
    rw [← hasValue_iff_fits hplaced.isInteger]
    simpa using hvalue
  have hkind : fault.1 ≠ .float := by
    intro hfloat
    have hparse := Reader.parse?_isSome_of_isIntegerText hplaced.isInteger
    obtain ⟨kind, literal⟩ := fault
    cases hfloat
    exact hfits hparse
  refine ⟨fault.1, fault.2, hmem, hkind, hfits, rfl, spans_of_placed hplaced,
    fun other hother hmisfit => ?_⟩
  rcases List.mem_append.1 hother with hother' | hother'
  · have hvalued := hbefore other hother'
    rw [← hasValue_iff_fits (h.placed other hother).isInteger] at hmisfit
    simp [hmisfit] at hvalued
  · rcases List.mem_cons.1 hother' with rfl | hother'
    · exact le_rfl
    · have hordered := (List.pairwise_append.1 h.ordered).2.1
      have hlater := (List.pairwise_cons.1 hordered).1 other hother'
      exact start_le_of_before hplaced (h.placed other hother) hlater

theorem firstFault_eq_none_iff {whole : List Char} {literals : List (LiteralKind × Literal)}
    (h : InOrder whole [] literals) :
    firstFault literals = none ↔ ∀ literal ∈ literals, Fits literal := by
  rw [firstFault, List.find?_eq_none]
  refine forall₂_congr fun literal hliteral => ?_
  rw [← hasValue_iff_fits (h.placed literal hliteral).isInteger]
  simp

/-! ## Building -/

theorem literals_programPair (text : List Char) (pairs : List Pair) :
    (programPair text pairs).literals .integer = literalsOf .integer pairs := by
  change literalsOf .integer (pairs ++ [_]) = _
  rw [literalsOf_append]
  exact List.append_nil _

theorem buildProgram_programPair {text : List Char} {pairs : List Pair} {data : List Datum}
    (h : RepresentsAll text pairs data) :
    (programPair text pairs).buildProgram text = (Datum.forms data).mapError (located text) := by
  have hfilter : (programPair text pairs).children.filter (·.rule ≠ .endOfText) = pairs := by
    have hpairs : pairs.filter (·.rule ≠ .endOfText) = pairs :=
      List.filter_eq_self.2 fun pair hpair => by simpa using h.ne_endOfText pair hpair
    change (pairs ++ [_]).filter _ = pairs
    rw [List.filter_append, hpairs]
    exact List.append_nil pairs
  rw [Pair.buildProgram, hfilter, h.build_eq]

/-! ## Reading -/

theorem readAll_of_data {text : String} {data : List Datum}
    (hblank : Text.isBlankText text.toList = false) (hdata : Reader.data text.toList = .ok data) :
    readAll text = (Datum.forms data).mapError (invalid text.toList) := by
  rw [readAll, hblank, if_neg Bool.false_ne_true, hdata]
  cases hforms : Datum.forms data with
  | error fault => simp [bind, Except.bind, hforms, Except.mapError, invalid]
  | ok forms => simp [bind, Except.bind, hforms, Except.mapError]

theorem inOrder_of_accepts {text : List Char} {program : Pair} (h : Accepts text program) :
    InOrder text [] (program.literals .integer) := by
  obtain ⟨rest, hmatches⟩ := h
  have horder := hmatches.laid.inOrder .integer
  rw [literalsOf, literalsOf, List.append_nil] at horder
  exact ⟨fun literal hliteral => (horder.placed literal hliteral).mono List.suffix_rfl
    (List.nil_suffix), horder.ordered⟩

theorem precise_of_data {text : String} {data : List Datum} {pairs : List Pair}
    (hblank : Text.isBlankText text.toList = false) (hdata : Reader.data text.toList = .ok data)
    (haccepts : Accepts text.toList (programPair text.toList pairs))
    (hpairs : RepresentsAll text.toList pairs data) :
    Precise text (programPair text.toList pairs) (readAll text) := by
  have horder := inOrder_of_accepts haccepts
  have hfault : fault? (Datum.forms data) =
      firstFault ((programPair text.toList pairs).literals .integer) := by
    rw [literals_programPair]
    exact hpairs.fault_eq
  rw [readAll_of_data hblank hdata]
  refine ⟨?_, fun error herror => ?_, ?_⟩
  · rw [ok_iff_fault?, fault?_mapError, hfault, Option.map_eq_none_iff,
      firstFault_eq_none_iff horder]
  · rw [error_iff_fault?, fault?_mapError, hfault, Option.map_eq_some_iff] at herror
    obtain ⟨fault, hfirst, rfl⟩ := herror
    exact reports_of_firstFault horder hfirst
  · rw [buildProgram_programPair hpairs]
    cases Datum.forms data <;> rfl

theorem fault_mem (text : List Char) (far top : Nat) :
    Reader.fault text far top ∈
      [ReadFault.unexpectedEnd, .unbalancedClose, .malformedForm] := by
  unfold Reader.fault
  split_ifs <;> simp

/-- A text that the grammar accepts is read if its numbers fit, and the leftmost that does not is
reported otherwise. All other errors are of three faults, for texts that the grammar rejects. -/
theorem readAll_precise (text : String) :
    (∀ program, Text.isBlankText text.toList = false → Accepts text.toList program →
      Precise text program (readAll text)) ∧
    ∀ error, readAll text = .error error →
      error.span.start ≤ error.span.stop ∧ error.span.stop ≤ text.utf8ByteSize ∧
      ((∃ kind inside, kind ≠ .float ∧ error = .invalidLiteral kind inside error.span) ∨
        ∃ fault, fault ∈ [ReadFault.unexpectedEnd, .unbalancedClose, .malformedForm] ∧
          error = .unreadable fault error.span ∧ Rejects text.toList) := by
  have hsize : Reader.utf8Length text.toList = text.utf8ByteSize := by
    rw [utf8Length_eq, String.ofList_toList]
  rcases data_cases text.toList with
    ⟨data, pairs, hdata, haccepts, hpairs⟩ | ⟨far, top, hdata, hrejects⟩
  · refine ⟨fun program hblank hprogram => ?_, fun error herror => ?_⟩
    · obtain ⟨rest, hmatches⟩ := haccepts
      obtain ⟨rest', hmatches'⟩ := hprogram
      cases hmatches.unique hmatches'
      exact precise_of_data hblank hdata ⟨rest, hmatches⟩ hpairs
    · cases hblank : Text.isBlankText text.toList with
      | true => simp [readAll, hblank] at herror
      | false =>
        have hprecise := precise_of_data hblank hdata haccepts hpairs
        obtain ⟨kind, literal, -, hkind, -, heq, hspans, -⟩ := hprecise.reports error herror
        exact ⟨hspans.bounds.1, hspans.bounds.2, .inl ⟨kind, _, hkind, heq⟩⟩
  · refine ⟨fun program _ hprogram => ?_, fun error herror => ?_⟩
    · obtain ⟨rest, hmatches⟩ := hprogram
      cases hmatches.unique hrejects
    · cases hblank : Text.isBlankText text.toList with
      | true => simp [readAll, hblank] at herror
      | false =>
        rw [readAll, hblank, if_neg Bool.false_ne_true, hdata] at herror
        cases herror
        exact ⟨le_rfl, hsize ▸ offset_le text.toList far, .inr ⟨_, fault_mem _ _ _, rfl, hrejects⟩⟩

/-- The second byte is out of range, and so is the integer behind the binary. -/
def misfitSample : String :=
  "(7 #B(255 300) 9999999999999999999)"

theorem readAll_precise_sample :
    ∃ program, Accepts misfitSample.toList program ∧
      Precise misfitSample program (readAll misfitSample) ∧
      readAll misfitSample = .error (.invalidLiteral .byte "300" ⟨10, 13⟩) := by
  rcases data_cases misfitSample.toList with ⟨data, pairs, -, haccepts, -⟩ | ⟨far, top, hdata, -⟩
  · exact ⟨_, haccepts, (readAll_precise misfitSample).1 _ rfl haccepts, rfl⟩
  · have hread : (Reader.data misfitSample.toList).toBool = true := rfl
    rw [hdata] at hread
    cases hread

end Form

end HeaderForms
