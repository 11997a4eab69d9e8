-- SUMMARY: The declarations that tokens are cut into, and the macro table behind them.
import HeaderForms.Proofs.Header.Macros

/-!
# Declarations in tokens

Tokens are cut into declarations, each with its end marker, and what is left behind the last of
them. What is read of a declaration depends on those before it through the macro table alone, and
the macro table on the accepted directives alone.
-/

namespace HeaderForms.Header

/-! ## Cuts -/

/-- A run of tokens with one end marker, which is its last token. -/
def IsDeclaration (chunk : List Token) : Prop :=
  ∃ run stop, chunk = run ++ [stop] ∧ (∀ token ∈ run, token.lexeme ≠ .dot) ∧ stop.lexeme = .dot

theorem isDot_eq_false {run : List Token} (h : ∀ token ∈ run, token.lexeme ≠ .dot) :
    ∀ token ∈ run, token.isDot = false :=
  fun token htoken => decide_eq_false (h token htoken)

theorem isComplete_append_stop (run : List Token) {stop : Token} (h : stop.lexeme = .dot) :
    isComplete (run ++ [stop]) = true := by
  simp [isComplete, Token.isDot, h]

theorem isComplete_eq_false {run : List Token} (h : ∀ token ∈ run, token.lexeme ≠ .dot) :
    isComplete run = false := by
  unfold isComplete
  cases hlast : run.getLast? with
  | none => rfl
  | some token => exact isDot_eq_false h token (List.mem_of_getLast? hlast)

theorem IsDeclaration.isComplete {chunk : List Token} (h : IsDeclaration chunk) :
    isComplete chunk = true := by
  obtain ⟨run, stop, rfl, -, hstop⟩ := h
  exact isComplete_append_stop run hstop

theorem chunksFrom_stop {stop : Token} (h : stop.lexeme = .dot) (current rest : List Token) :
    chunksFrom current (stop :: rest) = (current.reverse ++ [stop]) :: chunks rest := by
  rw [chunksFrom, if_pos (show stop.isDot = true from decide_eq_true h), List.reverse_cons]
  rfl

theorem chunksFrom_of_ne_dot {token : Token} (h : token.lexeme ≠ .dot)
    (current rest : List Token) :
    chunksFrom current (token :: rest) = chunksFrom (token :: current) rest := by
  rw [chunksFrom, if_neg (show ¬ token.isDot = true by simpa [Token.isDot] using h)]

theorem chunksFrom_append_stop {run : List Token} (hrun : ∀ token ∈ run, token.lexeme ≠ .dot)
    {stop : Token} (hstop : stop.lexeme = .dot) (current rest : List Token) :
    chunksFrom current (run ++ stop :: rest) =
      (current.reverse ++ (run ++ [stop])) :: chunks rest := by
  induction run generalizing current with
  | nil => exact chunksFrom_stop hstop current rest
  | cons token run ih =>
    obtain ⟨htoken, hrun⟩ := List.forall_mem_cons.1 hrun
    rw [List.cons_append, chunksFrom_of_ne_dot htoken, ih hrun]
    simp

theorem chunks_append {chunk : List Token} (h : IsDeclaration chunk) (rest : List Token) :
    chunks (chunk ++ rest) = chunk :: chunks rest := by
  obtain ⟨run, stop, rfl, hrun, hstop⟩ := h
  rw [List.append_assoc, List.singleton_append]
  exact chunksFrom_append_stop hrun hstop [] rest

theorem chunks_flatten_append {declared : List (List Token)}
    (h : ∀ chunk ∈ declared, IsDeclaration chunk) (rest : List Token) :
    chunks (declared.flatten ++ rest) = declared ++ chunks rest := by
  induction declared with
  | nil => rfl
  | cons chunk declared ih =>
    obtain ⟨hchunk, hdeclared⟩ := List.forall_mem_cons.1 h
    rw [List.flatten_cons, List.append_assoc, chunks_append hchunk, ih hdeclared,
      List.cons_append]

theorem chunks_flatten {declared : List (List Token)}
    (h : ∀ chunk ∈ declared, IsDeclaration chunk) : chunks declared.flatten = declared := by
  simpa [chunks, chunksFrom] using chunks_flatten_append h []

theorem chunksFrom_eq_singleton {run : List Token} (hrun : ∀ token ∈ run, token.lexeme ≠ .dot)
    {current : List Token} (hcurrent : current ≠ []) :
    chunksFrom current run = [current.reverse ++ run] := by
  induction run generalizing current with
  | nil => rw [chunksFrom, if_neg (by simpa using hcurrent), List.append_nil]
  | cons token run ih =>
    obtain ⟨htoken, hrun⟩ := List.forall_mem_cons.1 hrun
    rw [chunksFrom_of_ne_dot htoken, ih hrun (List.cons_ne_nil token current)]
    simp

/-- Tokens without an end marker are left over as they are. -/
theorem chunks_of_ne_dot {run : List Token} (hrun : ∀ token ∈ run, token.lexeme ≠ .dot) :
    chunks run = if run.isEmpty then [] else [run] := by
  cases run with
  | nil => rfl
  | cons token run =>
    obtain ⟨htoken, hrun⟩ := List.forall_mem_cons.1 hrun
    rw [chunks, chunksFrom_of_ne_dot htoken,
      chunksFrom_eq_singleton hrun (List.cons_ne_nil token [])]
    rfl

/-- Tokens are declarations and a rest without an end marker. -/
theorem exists_declarations (tokens : List Token) :
    ∃ (declared : List (List Token)) (rest : List Token),
      (∀ chunk ∈ declared, IsDeclaration chunk) ∧ (∀ token ∈ rest, token.lexeme ≠ .dot) ∧
        tokens = declared.flatten ++ rest := by
  induction tokens with
  | nil => exact ⟨[], [], List.forall_mem_nil _, List.forall_mem_nil _, rfl⟩
  | cons token tokens ih =>
    obtain ⟨declared, rest, hdeclared, hrest, rfl⟩ := ih
    by_cases htoken : token.lexeme = .dot
    case pos =>
      exact ⟨[token] :: declared, rest,
        List.forall_mem_cons.2 ⟨⟨[], token, rfl, List.forall_mem_nil _, htoken⟩, hdeclared⟩, hrest,
        rfl⟩
    case neg =>
      cases declared with
      | nil => exact ⟨[], token :: rest, hdeclared, List.forall_mem_cons.2 ⟨htoken, hrest⟩, rfl⟩
      | cons chunk declared =>
        obtain ⟨⟨run, stop, rfl, hrun, hstop⟩, hothers⟩ := List.forall_mem_cons.1 hdeclared
        exact ⟨(token :: run ++ [stop]) :: declared, rest,
          List.forall_mem_cons.2
            ⟨⟨token :: run, stop, rfl, List.forall_mem_cons.2 ⟨htoken, hrun⟩, hstop⟩, hothers⟩,
          hrest, by simp⟩

/-- The tokens are at the end of a declaration, or there are none. -/
def Closed (tokens : List Token) : Prop :=
  ∀ token ∈ tokens.getLast?, token.lexeme = .dot

theorem Closed.exists_declarations {tokens : List Token} (h : Closed tokens) :
    ∃ declared : List (List Token),
      (∀ chunk ∈ declared, IsDeclaration chunk) ∧ tokens = declared.flatten := by
  obtain ⟨declared, rest, hdeclared, hrest, rfl⟩ := Header.exists_declarations tokens
  cases hlast : rest.getLast? with
  | none =>
    rw [List.getLast?_eq_none_iff.1 hlast, List.append_nil]
    exact ⟨declared, hdeclared, rfl⟩
  | some token =>
    have hdot := h token (by simp [List.getLast?_append, hlast])
    exact absurd hdot (hrest token (List.mem_of_getLast? hlast))

/-- A complete chunk is a declaration of its tokens. -/
theorem exists_of_mem_chunks {tokens chunk : List Token} (hmem : chunk ∈ chunks tokens)
    (hcomplete : Header.isComplete chunk = true) : IsDeclaration chunk ∧ chunk <:+: tokens := by
  obtain ⟨declared, rest, hdeclared, hrest, rfl⟩ := exists_declarations tokens
  rw [chunks_flatten_append hdeclared, chunks_of_ne_dot hrest] at hmem
  rcases List.mem_append.1 hmem with hmem | hmem
  · obtain ⟨before, after, rfl⟩ := List.append_of_mem hmem
    exact ⟨hdeclared chunk hmem, before.flatten, after.flatten ++ rest, by simp⟩
  · split at hmem
    case isTrue => cases hmem
    case isFalse =>
      rw [List.mem_singleton.1 hmem, isComplete_eq_false hrest] at hcomplete
      cases hcomplete

/-! ## Declarations read one after the other -/

section

variable {legacy : Bool} {context : FileContext}

/-- Declarations leave the macro table to those behind them, and nothing else. -/
theorem readChunks_append {before : List (List Token)}
    (h : ∀ chunk ∈ before, isComplete chunk = true) (macros : MacroTable)
    (after : List (List Token)) :
    readChunks legacy context macros (before ++ after) =
      ((readChunks legacy context macros before).1 ++
          (readChunks legacy context (readChunks legacy context macros before).2 after).1,
        (readChunks legacy context (readChunks legacy context macros before).2 after).2) := by
  induction before generalizing macros with
  | nil => rfl
  | cons chunk before ih =>
    obtain ⟨hchunk, hbefore⟩ := List.forall_mem_cons.1 h
    rw [List.cons_append, readChunks, readChunks, if_pos hchunk, if_pos hchunk]
    simp only [ih hbefore, List.append_assoc]

/-! ## Changes of the macro table -/

/-- The change of the macro table that a declaration makes if it is an accepted directive. -/
def change? (chunk : List Token) : Option MacroChange :=
  match attribute? chunk with
  | some "define" => (Directive.readDefine chunk).toOption.map .define
  | some "undef" => (Directive.readUndef chunk).toOption.map .undefine
  | _ => none

theorem change?_eq_none {chunk : List Token} (hdefine : attribute? chunk ≠ some "define")
    (hundef : attribute? chunk ≠ some "undef") : change? chunk = none := by
  unfold change?
  split
  case h_1 hname => exact absurd hname hdefine
  case h_2 hname => exact absurd hname hundef
  case h_3 => rfl

theorem macros_readChunk (legacy : Bool) (context : FileContext) (macros : MacroTable)
    (chunk : List Token) :
    (readChunk legacy context macros chunk).2 = (change? chunk).elim macros macros.apply := by
  unfold readChunk
  split
  case h_1 hname =>
    simp only [change?, hname]
    cases Directive.readDefine chunk <;> rfl
  case h_2 hname =>
    simp only [change?, hname]
    cases Directive.readUndef chunk <;> rfl
  case h_3 hdefine hundef =>
    rw [change?_eq_none hdefine hundef]
    split
    case h_1 => rfl
    case h_2 => cases readPlain legacy context macros chunk <;> rfl

theorem macros_readChunks {chunks : List (List Token)}
    (h : ∀ chunk ∈ chunks, isComplete chunk = true) (macros : MacroTable) :
    (readChunks legacy context macros chunks).2 =
      (chunks.filterMap change?).foldl MacroTable.apply macros := by
  induction chunks generalizing macros with
  | nil => rfl
  | cons chunk chunks ih =>
    obtain ⟨hchunk, hchunks⟩ := List.forall_mem_cons.1 h
    rw [readChunks, if_pos hchunk, List.filterMap_cons]
    simp only [ih hchunks, macros_readChunk]
    cases change? chunk <;> rfl

/-- The definitions that every header starts with. -/
def seeds : List MacroChange :=
  predefinedNames.map fun name => .define ⟨name, .noArgs, .predefined⟩

/-- The changes of the macro table in tokens: what every header starts with, and the accepted
directives. -/
def history (tokens : List Token) : List MacroChange :=
  seeds ++ ((chunks tokens).filter isComplete).filterMap change?

theorem history_flatten_append {declared : List (List Token)}
    (h : ∀ chunk ∈ declared, IsDeclaration chunk) (rest : List Token) :
    history (declared.flatten ++ rest) =
      seeds ++ (declared.filterMap change? ++ ((chunks rest).filter isComplete).filterMap change?) := by
  rw [history, chunks_flatten_append h, List.filter_append,
    List.filter_eq_self.2 fun chunk hchunk => (h chunk hchunk).isComplete, List.filterMap_append]

theorem macros_ofTokens (legacy : Bool) (file : String) (tokens : List Token) :
    (ofTokens legacy file tokens).macros = .ofHistory (history tokens) := by
  obtain ⟨declared, rest, hdeclared, hrest, rfl⟩ := exists_declarations tokens
  have hcomplete : ∀ chunk ∈ declared, isComplete chunk = true :=
    fun chunk hchunk => (hdeclared chunk hchunk).isComplete
  have hseeds : initialMacros = seeds.foldl MacroTable.apply .empty := rfl
  have hread : ∀ macros, (readChunks legacy (.ofFile file) macros (chunks rest)).2 = macros := by
    intro macros
    rw [chunks_of_ne_dot hrest]
    split
    case isTrue => rfl
    case isFalse =>
      rw [readChunks, isComplete_eq_false hrest]
      rfl
  have hnone : (chunks rest).filter isComplete = [] := by
    rw [chunks_of_ne_dot hrest]
    split
    case isTrue => rfl
    case isFalse => simp [isComplete_eq_false hrest]
  rw [history_flatten_append hdeclared, hnone, List.filterMap_nil, List.append_nil,
    MacroTable.ofHistory, List.foldl_append, ← hseeds, ← macros_readChunks hcomplete]
  unfold ofTokens
  rw [chunks_flatten_append hdeclared, readChunks_append hcomplete]
  exact hread _

end

/-! ## Lines do not matter -/

section

variable {relocate : Token → Token} (h : Token.KeepsLexemes relocate)

include h

theorem IsDeclaration.map {chunk : List Token} (hchunk : IsDeclaration chunk) :
    IsDeclaration (chunk.map relocate) := by
  obtain ⟨run, stop, rfl, hrun, hstop⟩ := hchunk
  refine ⟨run.map relocate, relocate stop, by simp, fun token htoken => ?_, (h stop).trans hstop⟩
  obtain ⟨other, hother, rfl⟩ := List.mem_map.1 htoken
  rw [h other]
  exact hrun other hother

theorem isComplete_relocate (chunk : List Token) :
    isComplete (chunk.map relocate) = isComplete chunk := by
  unfold isComplete
  rw [List.getLast?_map]
  cases chunk.getLast? with
  | none => rfl
  | some token => exact Directive.isDot_relocate h token

theorem chunksFrom_relocate (current tokens : List Token) :
    chunksFrom (current.map relocate) (tokens.map relocate) =
      (chunksFrom current tokens).map (List.map relocate) := by
  induction tokens generalizing current with
  | nil => cases current <;> simp [chunksFrom]
  | cons token tokens ih =>
    rw [List.map_cons, chunksFrom, chunksFrom, Directive.isDot_relocate h]
    split
    case isTrue =>
      rw [List.map_cons, ← ih [], ← List.map_cons, List.map_reverse]
      rfl
    case isFalse => exact ih (token :: current)

theorem chunks_relocate (tokens : List Token) :
    chunks (tokens.map relocate) = (chunks tokens).map (List.map relocate) :=
  chunksFrom_relocate h [] tokens

theorem attribute?_relocate (chunk : List Token) :
    attribute? (chunk.map relocate) = attribute? chunk := by
  match chunk with
  | [] | [_] => rfl
  | first :: second :: _ =>
    simp only [List.map_cons, attribute?, Directive.isPunct_relocate h, Head.attributeName?,
      h second]

theorem change?_relocate (chunk : List Token) :
    change? (chunk.map relocate) = (change? chunk).map (MacroChange.relocate relocate) := by
  unfold change?
  rw [attribute?_relocate h, Directive.toOption_readDefine, Directive.toOption_readDefine,
    Directive.toOption_readUndef, Directive.toOption_readUndef, Directive.define?_relocate h,
    Directive.undefine?_relocate h]
  split
  case h_1 => cases Directive.define? chunk <;> rfl
  case h_2 => cases Directive.undefine? chunk <;> rfl
  case h_3 => rfl

theorem history_relocate (tokens : List Token) :
    history (tokens.map relocate) = (history tokens).map (MacroChange.relocate relocate) := by
  have hchunks : ∀ chunks : List (List Token),
      ((chunks.map (List.map relocate)).filter isComplete).filterMap change? =
        ((chunks.filter isComplete).filterMap change?).map (MacroChange.relocate relocate) := by
    intro chunks
    rw [List.filter_map, List.filterMap_map, List.map_filterMap]
    have hcomplete : isComplete ∘ List.map relocate = isComplete :=
      funext (isComplete_relocate h)
    rw [hcomplete]
    exact List.filterMap_congr fun chunk _ => change?_relocate h chunk
  have hseeds : seeds.map (MacroChange.relocate relocate) = seeds := rfl
  rw [history, history, chunks_relocate h, hchunks, List.map_append, hseeds]

end

end HeaderForms.Header
