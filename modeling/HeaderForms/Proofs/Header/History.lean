-- SUMMARY: The macro table of a header is what its directives make of it.
import HeaderForms.Proofs.Header.Chunks

/-!
# Macro tables and directives

The macro table of a header is the history of its accepted directives, behind the predefined macros.
The body of a definition stands in the text, and every table that macro uses are expanded by gives
each parameter of a definition an argument. Neighbouring directives about different macros can
change places: only the lines in the table tell their order.
-/

namespace HeaderForms

/-- Each parameter of a definition has an argument wherever the definition is used: the one in its
place. -/
def MacroTable.BindsParameters (table : MacroTable) : Prop :=
  ∀ name params body (arguments : List (List Token)),
    table.get? name (.fixed arguments.length) = some (.defined params body) →
    ∀ param i, params.idxOf? param = some i →
      ∃ argument, arguments[i]? = some argument ∧
        ∀ line, Expansion.argument? (params.zip arguments) ⟨.var param, line⟩ = some argument

/-- The token without its place. -/
def Token.unlocated (token : Token) : Token :=
  ⟨token.lexeme, 0⟩

theorem MacroTable.WellFormed.bindsParameters {table : MacroTable} (h : table.WellFormed) :
    table.BindsParameters := by
  intro name params body arguments hget param i hi
  obtain ⟨argument, hargument, hlookup⟩ := exists_lookup_zip (h.fits hget) hi
  exact ⟨argument, hargument, fun _ => hlookup⟩

namespace Header

/-! ## Tables that are reached -/

theorem wellFormed_reached {legacy : Bool} {context : FileContext} {source : String}
    {tokens : List Token} (htokens : Token.ofText source = .ok tokens)
    {before after : List (List Token)} (h : chunks tokens = before ++ after) :
    (readChunks legacy context initialMacros before).2.WellFormed := by
  refine wellFormed_readChunks (fun chunk hchunk token htoken => ?_) wellFormed_initialMacros
  have hmem : chunk ∈ chunks tokens := h ▸ List.mem_append_left after hchunk
  rcases mem_of_mem_chunksFrom hmem token htoken with hnil | htoken
  · cases hnil
  · exact Token.lexed_ofText htokens token htoken

/-! ## Changes of a text -/

theorem define?_of_change? {chunk : List Token} {added : MacroDefine}
    (h : change? chunk = some (.define added)) : Directive.define? chunk = some added := by
  unfold change? at h
  split at h
  case h_1 =>
    obtain ⟨define, hdefine, heq⟩ := Option.map_eq_some_iff.1 h
    cases heq
    rw [← Directive.toOption_readDefine, hdefine]
  case h_2 =>
    obtain ⟨name, -, heq⟩ := Option.map_eq_some_iff.1 h
    cases heq
  case h_3 => cases h

theorem defines_of_mem_history {tokens : List Token} {change : MacroChange}
    (h : change ∈ history tokens) : change.Defines := by
  rcases List.mem_append.1 h with h | h
  · obtain ⟨name, -, rfl⟩ := List.mem_map.1 h
    exact nofun
  · obtain ⟨chunk, -, hchange⟩ := List.mem_filterMap.1 h
    cases change with
    | define added =>
      obtain ⟨params, body, _, _, _, hdefinition, -⟩ :=
        Directive.exists_of_define? (define?_of_change? hchange)
      change added.definition ≠ .absent
      rw [hdefinition]
      exact nofun
    | undefine name => trivial

/-- A definition with a body has its parameters and its body from the text. -/
theorem body_of_mem_history {tokens : List Token} {added : MacroDefine} {params : List String}
    {body : List Token} (hdefinition : added.definition = .defined params body)
    (h : .define added ∈ history tokens) :
    added.arity.Fits params ∧ body <:+: tokens ∧ ∀ token ∈ body, token.lexeme ≠ .dot := by
  rcases List.mem_append.1 h with h | h
  · obtain ⟨name, -, heq⟩ := List.mem_map.1 h
    cases heq
    cases hdefinition
  · obtain ⟨chunk, hchunk, hchange⟩ := List.mem_filterMap.1 h
    obtain ⟨hmem, hcomplete⟩ := List.mem_filter.1 hchunk
    obtain ⟨hdeclaration, hinfix⟩ := exists_of_mem_chunks hmem hcomplete
    obtain ⟨params', body', front, close, stop, hdefinition', hfits, -, rfl⟩ :=
      Directive.exists_of_define? (define?_of_change? hchange)
    rw [hdefinition] at hdefinition'
    cases hdefinition'
    refine ⟨hfits, .trans ⟨front, [close, stop], rfl⟩ hinfix, fun token htoken => ?_⟩
    obtain ⟨run, stop', heq, hrun, -⟩ := hdeclaration
    rw [show front ++ body ++ [close, stop] = (front ++ body ++ [close]) ++ [stop] by simp] at heq
    rw [(List.append_inj' heq rfl).1.symm] at hrun
    exact hrun token (by simp [htoken])

/-! ## Swapped directives -/

/-- Tokens that differ in the order of two accepted directives about different macros, and in their
lines. What is between the directives changes no macro. -/
inductive Swapped : List Token → List Token → Prop
  | intro {before one between other after tokens' : List Token} {change change' : MacroChange} :
      Closed before → IsDeclaration one → change? one = some change →
      Closed between → (∀ chunk ∈ chunks between, change? chunk = none) →
      IsDeclaration other → change? other = some change' → change.name ≠ change'.name →
      tokens'.map (·.lexeme) =
        (before ++ (other ++ (between ++ (one ++ after)))).map (·.lexeme) →
      Swapped (before ++ (one ++ (between ++ (other ++ after)))) tokens'

theorem history_of_two {one other : List Token} {before between : List (List Token)}
    (hbefore : ∀ chunk ∈ before, IsDeclaration chunk) (hone : IsDeclaration one)
    (hbetween : ∀ chunk ∈ between, IsDeclaration chunk) (hother : IsDeclaration other)
    {change change' : MacroChange} (hchange : change? one = some change)
    (hplain : ∀ chunk ∈ between, change? chunk = none) (hchange' : change? other = some change')
    (after : List Token) :
    history (before.flatten ++ (one ++ (between.flatten ++ (other ++ after)))) =
      seeds ++ before.filterMap change? ++
        change :: change' :: ((chunks after).filter isComplete).filterMap change? := by
  have hcomplete : between.filter isComplete = between :=
    List.filter_eq_self.2 fun chunk hchunk => (hbetween chunk hchunk).isComplete
  rw [history_flatten_append hbefore, chunks_append hone, chunks_flatten_append hbetween,
    chunks_append hother, List.filter_cons_of_pos hone.isComplete, List.filter_append, hcomplete,
    List.filter_cons_of_pos hother.isComplete, List.filterMap_cons_some hchange,
    List.filterMap_append, List.filterMap_eq_nil_iff.2 hplain, List.nil_append,
    List.filterMap_cons_some hchange', List.append_assoc]

theorem ofHistory_of_swapped {tokens tokens' : List Token} (h : Swapped tokens tokens') :
    (MacroTable.ofHistory (history tokens')).relocate Token.unlocated =
      (MacroTable.ofHistory (history tokens)).relocate Token.unlocated := by
  cases h with
  | intro hclosed hone hchange hclosed' hplain hother hchange' hname hlexemes =>
    obtain ⟨before, hbefore, rfl⟩ := hclosed.exists_declarations
    obtain ⟨between, hbetween, rfl⟩ := hclosed'.exists_declarations
    rw [chunks_flatten hbetween] at hplain
    have hkeeps : Token.KeepsLexemes Token.unlocated := fun _ => rfl
    have hunlocated : ∀ tokens : List Token,
        tokens.map Token.unlocated = (tokens.map (·.lexeme)).map (Token.mk · 0) := by
      intro tokens
      rw [List.map_map]
      rfl
    rw [MacroTable.ofHistory_relocate, ← history_relocate hkeeps, hunlocated tokens', hlexemes,
      ← hunlocated, history_relocate hkeeps, ← MacroTable.ofHistory_relocate,
      history_of_two hbefore hother hbetween hone hchange' hplain hchange,
      history_of_two hbefore hone hbetween hother hchange hplain hchange',
      MacroTable.ofHistory_swap (seeds ++ before.filterMap change?) _ hname]

/-- The macro table of a header holds what its directives say. -/
theorem ofText_history {legacy : Bool} {file source : String} {tokens : List Token}
    (htokens : Token.ofText source = .ok tokens) :
    ∃ header, ofText legacy file source = .ok header ∧
      (∀ name, MacroTable.Records name (history tokens) (header.macros.entries name)) ∧
      (∀ name, ∀ entry ∈ header.macros.entries name, ∀ params body,
        entry.definition = .defined params body →
          entry.arity.Fits params ∧ body <:+: tokens ∧ ∀ token ∈ body, token.lexeme ≠ .dot) ∧
      (∀ source' tokens', Token.ofText source' = .ok tokens' → Swapped tokens tokens' →
        ∃ header', ofText legacy file source' = .ok header' ∧
          header'.macros.relocate Token.unlocated = header.macros.relocate Token.unlocated) ∧
      ∀ before after, chunks tokens = before ++ after →
        (readChunks legacy (.ofFile file) initialMacros before).2.BindsParameters := by
  have hrecords : ∀ name, MacroTable.Records name (history tokens)
      ((ofTokens legacy file tokens).macros.entries name) := by
    intro name
    rw [macros_ofTokens]
    exact MacroTable.records_ofHistory name fun change => defines_of_mem_history
  refine ⟨ofTokens legacy file tokens, by rw [ofText, htokens]; rfl, hrecords,
    fun name entry hentry params body hdefinition =>
      body_of_mem_history hdefinition ((hrecords name).mem_history hentry hdefinition),
    fun source' tokens' htokens' hswapped =>
      ⟨ofTokens legacy file tokens', by rw [ofText, htokens']; rfl, ?_⟩,
    fun before after hchunks => (wellFormed_reached htokens hchunks).bindsParameters⟩
  rw [macros_ofTokens, macros_ofTokens, ofHistory_of_swapped hswapped]

/-- A definition on a line, without its end marker. -/
def defineSample (line : Nat) : List Token :=
  [⟨.punct .minus, line⟩, ⟨.atom "define", line⟩, ⟨.punct .openParen, line⟩, ⟨.var "A", line⟩,
    ⟨.punct .comma, line⟩, ⟨.atom "b", line⟩, ⟨.punct .closeParen, line⟩]

/-- A removal on a line, without its end marker. -/
def undefineSample (line : Nat) : List Token :=
  [⟨.punct .minus, line⟩, ⟨.atom "undef", line⟩, ⟨.punct .openParen, line⟩, ⟨.atom "c", line⟩,
    ⟨.punct .closeParen, line⟩]

theorem ofText_history_sample :
    ∃ header header', ofText true "a.hrl" "-define(A,b).\n-undef(c)." = .ok header ∧
      ofText true "a.hrl" "-undef(c).\n-define(A,b)." = .ok header' ∧
      header.macros.entries "c" = [⟨.noArgs, .absent⟩] ∧
      header'.macros.relocate Token.unlocated = header.macros.relocate Token.unlocated := by
  have htokens : Token.ofText "-define(A,b).\n-undef(c)." =
      .ok (defineSample 1 ++ ⟨.dot, 1⟩ :: (undefineSample 2 ++ [⟨.dot, 2⟩])) := by rfl
  have htokens' : Token.ofText "-undef(c).\n-define(A,b)." =
      .ok (undefineSample 1 ++ ⟨.dot, 1⟩ :: (defineSample 2 ++ [⟨.dot, 2⟩])) := by rfl
  have hswapped : Swapped (defineSample 1 ++ ⟨.dot, 1⟩ :: (undefineSample 2 ++ [⟨.dot, 2⟩]))
      (undefineSample 1 ++ ⟨.dot, 1⟩ :: (defineSample 2 ++ [⟨.dot, 2⟩])) :=
    @Swapped.intro [] (defineSample 1 ++ [⟨.dot, 1⟩]) [] (undefineSample 2 ++ [⟨.dot, 2⟩]) [] _
      (.define ⟨"A", .noArgs, .defined [] [⟨.atom "b", 1⟩]⟩) (.undefine "c") nofun
      ⟨defineSample 1, ⟨.dot, 1⟩, rfl, by decide, rfl⟩ rfl nofun nofun
      ⟨undefineSample 2, ⟨.dot, 2⟩, rfl, by decide, rfl⟩ rfl (by decide) rfl
  obtain ⟨header, hread, hrecords, -, hswap, -⟩ := ofText_history htokens
  obtain ⟨header', hread', hsame⟩ := hswap _ _ htokens' hswapped
  exact ⟨header, header', hread, hread', (hrecords "c").removed (by rfl), hsame⟩

end Header

end HeaderForms
