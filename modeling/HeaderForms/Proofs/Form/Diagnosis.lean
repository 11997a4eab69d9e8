-- SUMMARY: How the report of a text that does not read depends on the spelling of its symbols.
import HeaderForms.Proofs.Form.Precision
import HeaderForms.Proofs.Form.Spelling

/-!
# Spelling and reports

Two texts that differ in the spelling of a symbol are read up to the same place, and both read or
neither does. The fault that is reported may differ all the same: the line of the place is looked
through for the letters `EOI`, which a symbol may hold as well.
-/

namespace HeaderForms

namespace Reader

/-! ## Places -/

theorem utf8Length_eq_sum (cs : List Char) : utf8Length cs = (cs.map Char.utf8Size).sum := by
  induction cs with
  | nil => rfl
  | cons c cs ih => rw [utf8Length, ih, List.map_cons, List.sum_cons]

/-- Characters of the same sizes stand at the same offsets. -/
theorem offset_eq {text text' : List Char} (h : text'.map Char.utf8Size = text.map Char.utf8Size)
    (left : Nat) : offset text' left = offset text left := by
  have hlength : text'.length = text.length := by simpa using congrArg List.length h
  rw [offset, offset, utf8Length_eq_sum, utf8Length_eq_sum, List.map_take, List.map_take, h,
    hlength]

/-! ## Faults -/

/-- Whether the line of a place holds the letters that are taken for the end of the text. -/
def lineNamesEnd (text : List Char) (left : Nat) : Bool :=
  mentions ['E', 'O', 'I'] (lineAround text left)

section

variable {text text' : List Char} {far top : Nat}

theorem fault_eq_unexpectedEnd_iff : fault text far top = .unexpectedEnd ↔ far = 0 := by
  unfold fault
  split_ifs <;> simp [*]

/-- The same failure is reported differently if just one of the lines names the end, and the other
text is malformed. -/
theorem fault_ne_iff (h : text.length = text'.length) :
    fault text' far top ≠ fault text far top ↔
      (fault text far top = .malformedForm ∧ lineNamesEnd text' far = true) ∨
        (fault text' far top = .malformedForm ∧ lineNamesEnd text far = true) := by
  unfold fault lineNamesEnd
  rw [← h]
  split_ifs <;> simp [*]

end

/-! ## Reading -/

theorem data_of_respelled {text text' : List Char} (h : Respelled .between text text') :
    (∃ found found', data text = .ok found ∧ data text' = .ok found') ∨
      ∃ far top,
        data text =
          .error (.unreadable (fault text far top) ⟨offset text far, offset text far⟩) ∧
        data text' =
          .error (.unreadable (fault text' far top) ⟨offset text' far, offset text' far⟩) := by
  have hitem := ignoresSpelling_datum (text.length + 1)
  obtain ⟨hrest, hfar⟩ := hitem.many (text.length + 1) text.length h
  unfold data
  rw [← h.length_eq]
  rcases hmany : many (datum (text.length + 1)) (text.length + 1) text.length text with
    ⟨⟨found, rest⟩, far⟩
  rcases hmany' : many (datum (text.length + 1)) (text.length + 1) text.length text' with
    ⟨⟨found', rest'⟩, far'⟩
  rw [hmany, hmany'] at hrest hfar
  cases hfar
  have hlength : (skipBlanks rest).length = (skipBlanks rest').length :=
    hrest.skipBlanks.length_eq
  by_cases hend : skipBlanks rest = []
  · rw [hend, List.length_nil] at hlength
    have hend' : skipBlanks rest' = [] := List.length_eq_zero_iff.1 hlength.symm
    exact .inl ⟨found, found', by simp [hend], by simp [hend']⟩
  · have hend' : skipBlanks rest' ≠ [] := by
      intro hnil
      rw [hnil, List.length_nil] at hlength
      exact hend (List.length_eq_zero_iff.1 hlength)
    exact .inr ⟨far, (skipBlanks rest).length, by simp [hend], by simp [hend', hlength]⟩

end Reader

namespace Form

open Reader

/-! ## Reports -/

/-- One of the longer symbols of a text is spelt with other characters, as many as before. -/
def SpellsAnew (text text' : String) : Prop :=
  ∃ before word other after, IsWord word ∧ IsWord other ∧ other.length = word.length ∧
    text.toList = before ++ (word ++ after) ∧ text'.toList = before ++ (other ++ after)

/-- A symbol that starts with a letter, and another letter in place of one of its letters. -/
theorem spellsAnew_of_letter (before after : List Char) {stem tail : List Char} {c d : Char}
    (hletter : (stem ++ c :: tail).head?.any Numeral.isLetter = true)
    (hsymbols : (stem ++ c :: tail).all isSymbolChar = true)
    (hlong : 1 < (stem ++ c :: tail).length) (hd : Numeral.isLetter d = true) :
    SpellsAnew (String.ofList (before ++ (stem ++ c :: tail) ++ after))
      (String.ofList (before ++ (stem ++ d :: tail) ++ after)) := by
  have hword := isWord_of_letter hletter hsymbols hlong
  exact ⟨before, _, _, after, hword, hword.replace (beginsSymbol_of_isLetter hd), by simp, by simp,
    by simp⟩

section

variable {text text' : String}

theorem SpellsAnew.symm (h : SpellsAnew text text') : SpellsAnew text' text := by
  obtain ⟨before, word, other, after, hword, hother, hlength, htext, htext'⟩ := h
  exact ⟨before, other, word, after, hother, hword, hlength.symm, htext', htext⟩

theorem SpellsAnew.respelled (h : SpellsAnew text text') :
    Respelled .between text.toList text'.toList := by
  obtain ⟨before, word, other, after, hword, hother, hlength, htext, htext'⟩ := h
  rw [htext, htext']
  exact (Respelled.append_word hword hother hlength after).append before

theorem SpellsAnew.not_isBlankText (h : SpellsAnew text text') :
    Text.isBlankText text.toList = false := by
  obtain ⟨before, word, other, after, hword, -, -, htext, -⟩ := h
  obtain ⟨c, hc, hbegins⟩ := (Option.any_eq_true beginsSymbol word.head?).1 hword.begins
  have hmem : c ∈ text.toList := by simp [htext, List.mem_of_mem_head? hc]
  exact List.all_eq_false.2 ⟨c, hmem, by simp [not_isBlank_of_beginsSymbol hbegins]⟩

theorem readAll_of_data_error {error : ReadError} (hblank : Text.isBlankText text.toList = false)
    (h : Reader.data text.toList = .error error) : readAll text = .error error := by
  rw [readAll, hblank, if_neg Bool.false_ne_true, h]
  rfl

/-- A text with data has no other errors than for a number that does not fit. -/
theorem readAll_ne_unreadable {data : List Datum} {fault : ReadFault} {span : Span}
    (hblank : Text.isBlankText text.toList = false) (h : Reader.data text.toList = .ok data) :
    readAll text ≠ .error (.unreadable fault span) := by
  rw [readAll_of_data hblank h]
  cases Datum.forms data <;> nofun

/-- A text that does not read does not read in another spelling of its symbols either. The place is
the same, and so is the fault, unless for just one of the texts the line there names the end. -/
theorem readAll_respelled {fault : ReadFault} {span : Span} (hspells : SpellsAnew text text')
    (h : readAll text = .error (.unreadable fault span)) :
    ∃ left fault' span', readAll text' = .error (.unreadable fault' span') ∧
      span = ⟨offset text.toList left, offset text.toList left⟩ ∧
      span' = ⟨offset text'.toList left, offset text'.toList left⟩ ∧
      (text'.toList.map Char.utf8Size = text.toList.map Char.utf8Size → span' = span) ∧
      (fault' = .unexpectedEnd ↔ fault = .unexpectedEnd) ∧
      (fault' ≠ fault ↔
        (fault = .malformedForm ∧ lineNamesEnd text'.toList left = true) ∨
          (fault' = .malformedForm ∧ lineNamesEnd text.toList left = true)) := by
  have hstep := hspells.respelled
  rcases data_of_respelled hstep with ⟨data, data', hdata, -⟩ | ⟨far, top, hdata, hdata'⟩
  · exact absurd h (readAll_ne_unreadable hspells.not_isBlankText hdata)
  · rw [readAll_of_data_error hspells.not_isBlankText hdata] at h
    cases h
    refine ⟨far, _, _, readAll_of_data_error hspells.symm.not_isBlankText hdata', rfl, rfl, ?_, ?_,
      fault_ne_iff hstep.length_eq⟩
    · intro hsizes
      rw [offset_eq hsizes]
    · rw [fault_eq_unexpectedEnd_iff, fault_eq_unexpectedEnd_iff]

end

theorem readAll_respelled_sample :
    ∃ fault, readAll "(EOI \\)" = .error (.unreadable fault ⟨5, 5⟩) ∧ fault ≠ .unexpectedEnd := by
  have hspells : SpellsAnew "(EOJ \\)" "(EOI \\)" :=
    @spellsAnew_of_letter ['('] [' ', '\\', ')'] ['E', 'O'] [] 'J' 'I' rfl rfl (by decide) rfl
  have hread : readAll "(EOJ \\)" = .error (.unreadable .malformedForm ⟨5, 5⟩) := rfl
  obtain ⟨left, fault, span, hfault, -, -, hspan, hend, -⟩ := readAll_respelled hspells hread
  rw [hspan (by decide)] at hfault
  exact ⟨fault, hfault, fun heq => by cases hend.1 heq⟩

/-- A letter within a symbol can turn a malformed form into an unbalanced delimiter. -/
theorem not_fault_of_letters :
    ¬ ∀ (before stem tail after : List Char) (c d : Char) (fault : ReadFault) (span : Span),
      before.getLast?.all (!isSymbolChar ·) = true → after.head?.all (!isSymbolChar ·) = true →
      (stem ++ c :: tail).head?.any Numeral.isLetter = true →
      (stem ++ c :: tail).all isSymbolChar = true → 1 < (stem ++ c :: tail).length →
      Numeral.isLetter c = true → Numeral.isLetter d = true →
      readAll (String.ofList (before ++ (stem ++ c :: tail) ++ after)) =
        .error (.unreadable fault span) →
      readAll (String.ofList (before ++ (stem ++ d :: tail) ++ after)) =
        .error (.unreadable fault span) := by
  intro h
  have hmalformed := h ['('] ['E', 'O'] [] [' ', '\\', ')'] 'J' 'I' .malformedForm ⟨5, 5⟩ rfl rfl
    rfl rfl (by decide) rfl rfl rfl
  have hunbalanced : readAll "(EOI \\)" = .error (.unreadable .unbalancedClose ⟨5, 5⟩) := rfl
  cases hunbalanced.symm.trans hmalformed

end Form

end HeaderForms
