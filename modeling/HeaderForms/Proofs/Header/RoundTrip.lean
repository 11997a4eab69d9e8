-- SUMMARY: Which forms of a header read back from their text, alone and in the printed program.
import HeaderForms.CommandLine.Output
import HeaderForms.Header.ToForm
import HeaderForms.Proofs.Declaration.Outcome
import HeaderForms.Proofs.Form.RoundTrip

/-!
# Headers read back

The form of a header is `(progn item...)`, and the command prints each item on a line of its own.
Every item is a list with a head that is not abbreviated, so nothing that stands behind an item
changes how it reads: each of them comes back, or does not, by itself.
-/

namespace HeaderForms

open Reader

namespace Form

/-- A list with a head that is not abbreviated. -/
def IsItem (form : Form) : Prop :=
  ∃ head args, form = call head args ∧ abbreviation? head = none

theorem IsItem.faithful_eq {form : Form} (h : IsItem form) (followed : Bool) :
    faithful followed form = faithful false form := by
  obtain ⟨head, args, rfl, hhead⟩ := h
  have hquotation : quotation? (.symbol head :: args) = none := by
    unfold quotation?
    split
    case h_1 heq =>
      cases heq
      simp [hhead]
    case h_2 => rfl
  rw [call, faithful_list hquotation, faithful_list hquotation]

theorem faithfulAll_of_isItem {items : List Form} (h : ∀ item ∈ items, IsItem item) :
    faithfulAll items = true ↔ ∀ item ∈ items, faithful false item = true := by
  induction items with
  | nil => simp [faithfulAll]
  | cons item items ih =>
    rw [faithfulAll, Bool.and_eq_true, (h item List.mem_cons_self).faithful_eq, List.forall_mem_cons,
      ih fun other hother => h other (List.mem_cons_of_mem item hother)]

/-! ## Printed programs -/

/-- The lines of a printed program, each item behind a gap. -/
theorem joined_lines (head : List Char) (item : Form) (items : List Form) :
    Joined (head :: (item :: items).map chars)
      (head ++ ('\n' :: ("\n".intercalate
        ((item :: items).map fun item => "  " ++ item.text)).toList)) := by
  have hgap : IsGap ['\n', ' ', ' '] := ⟨by simp, by simp⟩
  induction items generalizing head item with
  | nil =>
    have hone : Joined [head, item.chars] (head ++ (['\n', ' ', ' '] ++ item.chars)) :=
      .cons hgap (.one item.chars)
    simpa [text] using hone
  | cons next items ih =>
    have hcons : Joined (head :: item.chars :: (next :: items).map chars)
        (head ++ (['\n', ' ', ' '] ++ (item.chars ++ ('\n' :: ("\n".intercalate
          ((next :: items).map fun item => "  " ++ item.text)).toList)))) :=
      .cons hgap (ih item.chars next)
    have htext : ("\n".intercalate ((item :: next :: items).map fun item => "  " ++ item.text)).toList =
        [' ', ' '] ++ (item.chars ++ ('\n' :: ("\n".intercalate
          ((next :: items).map fun item => "  " ++ item.text)).toList)) := by
      rw [List.map_cons, List.map_cons, String.intercalate_cons_cons]
      simp [text]
    rw [htext]
    exact hcons

/-- A printed program reads back exactly when each of its items does. -/
theorem readAll_program_iff {items : List Form} (h : ∀ item ∈ items, IsItem item) :
    readAll (CommandLine.textOfLines [(call "progn" items).programText]) =
      .ok [call "progn" items] ↔ ∀ item ∈ items, faithful false item = true := by
  have hhead : faithfulAll (.symbol "progn" :: items) = true ↔
      ∀ item ∈ items, faithful false item = true := by
    rw [faithfulAll, faithful, Bool.true_and, faithfulAll_of_isItem h]
  have hprogn : chars (.symbol "progn") = "progn".toList := by decide +kernel
  have hblanks : ∀ c ∈ ['\n'], c = ' ' ∨ c = '\n' := by simp
  have hjoined : ∃ cs, CommandLine.textOfLines [(call "progn" items).programText] =
      String.ofList ('(' :: (cs ++ ')' :: ['\n'])) ∧
      Joined ((Form.symbol "progn" :: items).map chars) cs := by
    cases items with
    | nil =>
      refine ⟨"progn".toList, by decide +kernel, ?_⟩
      rw [List.map_cons, List.map_nil, hprogn]
      exact .one _
    | cons item items =>
      refine ⟨_, ?_, joined_lines (chars (.symbol "progn")) item items⟩
      rw [hprogn, ← String.toList_inj]
      simp [CommandLine.textOfLines, call, programText, isSymbol]
  obtain ⟨cs, htext, hjoined⟩ := hjoined
  rw [htext, call, readAll_layout_iff hjoined hblanks, hhead]

end Form

namespace Declaration

theorem isItem_of_topLevel? {typedRecords : List String} {declaration : Declaration} {form : Form}
    (h : (declaration.outcome typedRecords).topLevel? = some form) : form.IsItem := by
  have hheads : ∀ head ∈ heads, Form.abbreviation? head = none := by decide
  obtain ⟨head, hhead, args, rfl⟩ := exists_calls_of_topLevel? h
  exact ⟨head, args, rfl, hheads head hhead⟩

end Declaration

theorem MacroForm.isItem_of_definition? {name : String} {clauses : List Form} {form : Form}
    (h : definition? name clauses = some form) : form.IsItem := by
  unfold definition? at h
  split at h
  case isTrue => cases h
  case isFalse =>
    cases h
    exact ⟨"defmacro", _, rfl, by decide⟩

namespace Header

theorem isItem_of_mem_formItems {header : Header} {session : Session} {item : Form}
    (h : item ∈ (header.formItems session).1) : item.IsItem := by
  simp only [formItems, List.mem_append] at h
  rcases h with (h | h) | h
  · unfold extension at h
    split at h
    case isTrue => cases h
    case isFalse =>
      rw [List.mem_singleton.1 h]
      exact ⟨"extend-module", _, rfl, by decide⟩
  · simp only [DeclarationForms.ofDeclarations, List.mem_filterMap] at h
    obtain ⟨outcome, houtcome, hform⟩ := h
    obtain ⟨declaration, -, rfl⟩ := List.mem_map.1 houtcome
    exact Declaration.isItem_of_topLevel? hform
  · simp only [MacroTable.toForms, List.mem_filterMap] at h
    obtain ⟨definition, hdefinition, hform⟩ := h
    obtain ⟨⟨name, entries⟩, -, rfl⟩ := List.mem_map.1 hdefinition
    exact MacroForm.isItem_of_definition? hform

/-- The items of a header come back from their texts exactly when they are faithful, and the printed
program comes back exactly when all of them do. -/
theorem readAll_formItems_iff (header : Header) (session : Session) :
    (∀ item ∈ (header.formItems session).1,
      Form.readAll item.text = .ok [item] ↔ item.faithful false = true) ∧
    (Form.readAll (CommandLine.textOfLines [(header.toForm session).1.programText]) =
        .ok [(header.toForm session).1] ↔
      ∀ item ∈ (header.formItems session).1, item.faithful false = true) :=
  ⟨fun item _ => Form.readAll_text_iff item,
    Form.readAll_program_iff fun item => @isItem_of_mem_formItems header session item⟩

/-- A comma before an atom that starts with `@` comes back as a splice. -/
theorem not_readAll_comma_attribute :
    ∃ header, Header.ofText false "test.hrl" "-comma('@foo').\n" = .ok header ∧
      ∃ item ∈ (header.formItems .initial).1, Form.readAll item.text ≠ .ok [item] := by
  have hfaithful : ((ofText false "test.hrl" "-comma('@foo').\n").toOption.map fun header =>
      (header.formItems .initial).1.map (Form.faithful false)) = some [false] := by decide +kernel
  cases hread : ofText false "test.hrl" "-comma('@foo').\n" with
  | error =>
    rw [hread] at hfaithful
    cases hfaithful
  | ok header =>
    rw [hread] at hfaithful
    obtain ⟨item, hitem, hfalse⟩ := List.exists_of_mem_map
      (Option.some.inj hfaithful ▸ List.mem_singleton_self false)
    refine ⟨header, rfl, item, hitem, ?_⟩
    rw [ne_eq, Form.readAll_text_iff, hfalse]
    exact Bool.false_ne_true

end Header

end HeaderForms
