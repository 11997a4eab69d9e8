-- SUMMARY: The macro table of a header is well-formed.
import HeaderForms.Header
import HeaderForms.Proofs.Macro.Directive

/-!
# Macro tables of headers

The table of a header starts with the predefined macros and is changed by directives only. A
directive takes its parameters from the variables of its own tokens, so every table that is reached
while a header is read is well-formed.
-/

namespace HeaderForms

namespace Header

theorem mem_of_mem_chunksFrom {current tokens chunk : List Token}
    (h : chunk ∈ chunksFrom current tokens) :
    ∀ token ∈ chunk, token ∈ current ∨ token ∈ tokens := by
  induction tokens generalizing current with
  | nil =>
    unfold chunksFrom at h
    split at h
    case isTrue => cases h
    case isFalse =>
      rw [List.mem_singleton.1 h]
      exact fun token htoken => .inl (List.mem_reverse.1 htoken)
  | cons first rest ih =>
    unfold chunksFrom at h
    intro token htoken
    split at h
    case isTrue =>
      rcases List.mem_cons.1 h with rfl | h
      · rcases List.mem_cons.1 (List.mem_reverse.1 htoken) with rfl | hcurrent
        · exact .inr List.mem_cons_self
        · exact .inl hcurrent
      · rcases ih h token htoken with hnil | hrest
        · cases hnil
        · exact .inr (List.mem_cons_of_mem first hrest)
    case isFalse =>
      rcases ih h token htoken with hcurrent | hrest
      · rcases List.mem_cons.1 hcurrent with rfl | hcurrent
        · exact .inr List.mem_cons_self
        · exact .inl hcurrent
      · exact .inr (List.mem_cons_of_mem first hrest)

theorem wellFormed_initialMacros : initialMacros.WellFormed := by
  have hfold : ∀ names : List String, ∀ table : MacroTable, table.WellFormed →
      (names.foldl (fun table name => table.define name .noArgs .predefined) table).WellFormed := by
    intro names
    induction names with
    | nil => exact fun _ h => h
    | cons name names ih =>
      intro table h
      refine ih _ (MacroTable.wellFormed_define h name ?_)
      intro params body hdefinition
      cases hdefinition
  exact hfold predefinedNames .empty MacroTable.wellFormed_empty

theorem wellFormed_readChunk {legacy : Bool} {context : FileContext} {macros : MacroTable}
    {chunk : List Token} (hchunk : ∀ token ∈ chunk, token.Lexed) (h : macros.WellFormed) :
    (readChunk legacy context macros chunk).2.WellFormed := by
  unfold readChunk
  split
  case h_1 =>
    split
    case h_1 define hdefine =>
      exact MacroTable.wellFormed_define h define.name
        (Directive.wellFormed_readDefine hchunk hdefine)
    case h_2 => exact h
  case h_2 =>
    split
    case h_1 name _ => exact MacroTable.wellFormed_undefine h name
    case h_2 => exact h
  case h_3 =>
    split
    case h_1 => exact h
    case h_2 =>
      split
      case h_1 => exact h
      case h_2 => exact h

/-- What each chunk keeps of a macro table holds of the table that is reached behind all of them. -/
theorem invariant_readChunks {P : MacroTable → Prop} {legacy : Bool} {context : FileContext}
    {macros : MacroTable} {chunks : List (List Token)}
    (hstep : ∀ chunk ∈ chunks, ∀ macros, P macros → P (readChunk legacy context macros chunk).2)
    (h : P macros) : P (readChunks legacy context macros chunks).2 := by
  induction chunks generalizing macros with
  | nil => exact h
  | cons chunk chunks ih =>
    obtain ⟨hchunk, hchunks⟩ := List.forall_mem_cons.1 hstep
    rw [readChunks]
    split
    case isTrue => exact ih hchunks (hchunk macros h)
    case isFalse => exact h

theorem wellFormed_readChunks {legacy : Bool} {context : FileContext} {macros : MacroTable}
    {chunks : List (List Token)} (hchunks : ∀ chunk ∈ chunks, ∀ token ∈ chunk, token.Lexed)
    (h : macros.WellFormed) : (readChunks legacy context macros chunks).2.WellFormed :=
  invariant_readChunks (fun chunk hchunk _ => wellFormed_readChunk (hchunks chunk hchunk)) h

theorem wellFormed_macros {legacy : Bool} {file source : String} {header : Header}
    (h : ofText legacy file source = .ok header) : header.macros.WellFormed := by
  cases htokens : Token.ofText source with
  | error =>
    rw [ofText, htokens] at h
    cases h
  | ok tokens =>
    rw [ofText, htokens] at h
    cases h
    refine wellFormed_readChunks (fun chunk hchunk token htoken => ?_) wellFormed_initialMacros
    rcases mem_of_mem_chunksFrom hchunk token htoken with hnil | hmem
    · cases hnil
    · exact Token.lexed_ofText htokens token hmem

end Header

end HeaderForms
