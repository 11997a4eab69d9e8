-- SUMMARY: A declaration that changes no macro leaves the rest of its header as it is.
import HeaderForms.Proofs.Header.Chunks
import HeaderForms.Proofs.Token.Joined

/-!
# Recovery

A declaration that is no accepted directive can be taken out of a header: what the others declare
and the macro table stay the same. It does not matter whether it is read, is left unsupported or
fails, in its macro uses or in its grammar.
-/

namespace HeaderForms

/-! ## Blank lines -/

/-- The newlines of a text. -/
def blankLines (text : String) : String :=
  String.ofList (text.toList.filter (· = '\n'))

theorem newlines_blankLines (text : String) :
    Lexer.newlines (blankLines text).toList = Lexer.newlines text.toList := by
  rw [blankLines, String.toList_ofList]
  exact List.count_filter (by simp)

theorem skipGap_newlines (cs : List Char) : Lexer.skipGap false (cs.filter (· = '\n')) = [] := by
  induction cs with
  | nil => rfl
  | cons c cs ih =>
    by_cases hnewline : c = '\n'
    case pos =>
      rw [List.filter_cons_of_pos (by simpa using hnewline), hnewline]
      exact (Lexer.skipGap_blank (by decide) _).1.trans ih
    case neg =>
      rw [List.filter_cons_of_neg (by simpa using hnewline)]
      exact ih

theorem tokensFrom_blankLines (line : Nat) (text : String) :
    Lexer.tokensFrom line (blankLines text).toList = .ok [] := by
  rw [blankLines, String.toList_ofList]
  exact Lexer.tokensFrom_of_nil (skipGap_newlines text.toList)

/-! ## Texts in a row -/

/-- The tokens of two texts and what follows them, each on lines of its own. -/
theorem Token.ofText_append_append {first second : String} {tokens tokens' : List Token}
    (h : ofText first = .ok tokens)
    (h' : Lexer.tokensFrom (1 + Lexer.newlines first.toList + 1) second.toList = .ok tokens')
    (more : String) :
    ofText (first ++ "\n" ++ second ++ "\n" ++ more) =
      (fun others => tokens ++ (tokens' ++ others)) <$>
        Lexer.tokensFrom
          (1 + Lexer.newlines first.toList + 1 + Lexer.newlines second.toList + 1)
          more.toList := by
  have hassoc : first ++ "\n" ++ second ++ "\n" ++ more =
      first ++ "\n" ++ (second ++ "\n" ++ more) := by
    simp only [String.append_assoc]
  rw [hassoc, ofText_append h, toList_joined, Lexer.tokensFrom_append h']
  exact (LawfulFunctor.comp_map _ _ _).symm

namespace Header

/-! ## Headers without one of their declarations -/

/-- A text has these declarations before the end of the file, and this macro table. -/
def Declares (legacy : Bool) (file source : String) (declarations : List LocatedDeclaration)
    (macros : MacroTable) : Prop :=
  ∃ line, ofText legacy file source = .ok ⟨declarations ++ [⟨line, .endOfFile⟩], macros⟩

section

variable {legacy : Bool} {file : String}

theorem declares_of_ofText {source : String} {tokens : List Token}
    (h : Token.ofText source = .ok tokens) {declarations : List LocatedDeclaration}
    {macros : MacroTable}
    (hread : readChunks legacy (.ofFile file) initialMacros (chunks tokens) =
      (declarations, macros)) : Declares legacy file source declarations macros := by
  rw [Declares, ofText, h]
  refine ⟨(tokens.getLast?.map (·.line)).getD 1, congrArg Except.ok ?_⟩
  rw [ofTokens, hread]

/-- In tokens, a declaration that changes no macro adds what it declares to what is declared before
it and behind it. -/
theorem readChunks_insert {context : FileContext} {before chunk : List Token}
    (hclosed : Closed before) (hchunk : IsDeclaration chunk) (hplain : change? chunk = none)
    (initial : MacroTable) :
    ∃ declarations added macros,
      readChunks legacy context initial (chunks before) = (declarations, macros) ∧
      readChunks legacy context initial (chunks (before ++ chunk)) =
        (declarations ++ added, macros) ∧
      ∀ rest, ∃ others macros',
        readChunks legacy context initial (chunks (before ++ (chunk ++ rest))) =
          (declarations ++ added ++ others, macros') ∧
        readChunks legacy context initial (chunks (before ++ rest)) =
          (declarations ++ others, macros') := by
  obtain ⟨declared, hdeclared, rfl⟩ := hclosed.exists_declarations
  have hcomplete : ∀ chunk ∈ declared, isComplete chunk = true :=
    fun chunk hmem => (hdeclared chunk hmem).isComplete
  have hsame : ∀ macros, (readChunks legacy context macros [chunk]).2 = macros := by
    intro macros
    rw [macros_readChunks (List.forall_mem_singleton.2 hchunk.isComplete),
      List.filterMap_cons_none hplain]
    rfl
  have hsingle : chunks chunk = [chunk] := by
    simpa [chunks, chunksFrom] using chunks_append hchunk []
  let macros := (readChunks legacy context initial declared).2
  let read := fun rest => readChunks legacy context macros (chunks rest)
  refine ⟨_, (readChunks legacy context macros [chunk]).1, macros, by rw [chunks_flatten hdeclared], ?_,
    fun rest => ⟨(read rest).1, (read rest).2, ?_, ?_⟩⟩
  · rw [chunks_flatten_append hdeclared, hsingle, readChunks_append hcomplete, hsame]
  · rw [chunks_flatten_append hdeclared, chunks_append hchunk, readChunks_append hcomplete,
      ← List.singleton_append,
      readChunks_append (List.forall_mem_singleton.2 hchunk.isComplete), hsame,
      List.append_assoc]
  · rw [chunks_flatten_append hdeclared, readChunks_append hcomplete]

end

/-- A declaration that is no accepted directive adds what it declares to what is declared before
it and behind it, and changes nothing else. -/
theorem ofText_recovers {legacy : Bool} {file first text : String} {before chunk : List Token}
    (hfirst : Token.ofText first = .ok before) (hclosed : Closed before)
    (htext : Token.ofText text = .ok chunk) (hchunk : IsDeclaration chunk)
    (hplain : change? chunk = none) :
    ∃ declarations added macros,
      Declares legacy file first declarations macros ∧
      Declares legacy file (first ++ "\n" ++ text) (declarations ++ added) macros ∧
      ∀ rest : String,
        (∃ error,
          ofText legacy file (first ++ "\n" ++ text ++ "\n" ++ rest) = .error error ∧
          ofText legacy file (first ++ "\n" ++ blankLines text ++ "\n" ++ rest) = .error error) ∨
        ∃ others macros',
          Declares legacy file (first ++ "\n" ++ text ++ "\n" ++ rest)
            (declarations ++ added ++ others) macros' ∧
          Declares legacy file (first ++ "\n" ++ blankLines text ++ "\n" ++ rest)
            (declarations ++ others) macros' := by
  -- Behind the first text the tokens of the second are those it has alone, further down.
  let lines := Lexer.newlines first.toList + 1
  have hkeeps : Token.KeepsLexemes (Token.shift lines) := fun _ => rfl
  have hshifted : Lexer.tokensFrom (1 + lines) text.toList =
      .ok (chunk.map (Token.shift lines)) := by
    rw [Lexer.tokensFrom_add]
    exact congrArg (Lexer.shifted lines) htext
  have hplain' : change? (chunk.map (Token.shift lines)) = none := by
    rw [change?_relocate hkeeps, hplain]
    rfl
  obtain ⟨declarations, added, macros, hbefore, hadded, hrest⟩ :=
    readChunks_insert hclosed (hchunk.map hkeeps) hplain' initialMacros
  have htwo : Token.ofText (first ++ "\n" ++ text) =
      .ok (before ++ chunk.map (Token.shift lines)) := by
    rw [Token.ofText_append hfirst, Nat.add_assoc, hshifted]
    rfl
  refine ⟨declarations, added, macros, declares_of_ofText hfirst hbefore,
    declares_of_ofText htwo hadded, fun rest => ?_⟩
  have hwith := Token.ofText_append_append hfirst hshifted rest
  have hwithout := Token.ofText_append_append hfirst (tokensFrom_blankLines _ text) rest
  rw [newlines_blankLines] at hwithout
  cases htail : Lexer.tokensFrom
      (1 + Lexer.newlines first.toList + 1 + Lexer.newlines text.toList + 1) rest.toList with
  | error error =>
    rw [htail] at hwith hwithout
    exact .inl ⟨error, by rw [ofText, hwith]; rfl, by rw [ofText, hwithout]; rfl⟩
  | ok others =>
    rw [htail] at hwith hwithout
    obtain ⟨added', macros', hread, hread'⟩ := hrest others
    exact .inr ⟨added', macros', declares_of_ofText hwith hread,
      declares_of_ofText hwithout hread'⟩

/-- The use of a macro that has no definition, over two lines. -/
def recoverySample : List Token :=
  [⟨.punct .question, 1⟩, ⟨.atom "b", 2⟩, ⟨.dot, 2⟩]

theorem ofText_recovers_sample :
    Token.ofText "?\nb." = .ok recoverySample ∧ blankLines "?\nb." = "\n" ∧
    ∃ declarations added macros,
      Declares false "a.hrl" "-undef(a)." declarations macros ∧
      Declares false "a.hrl" ("-undef(a)." ++ "\n" ++ "?\nb.") (declarations ++ added) macros ∧
      ∀ rest : String,
        (∃ error,
          ofText false "a.hrl" ("-undef(a)." ++ "\n" ++ "?\nb." ++ "\n" ++ rest) =
            .error error ∧
          ofText false "a.hrl" ("-undef(a)." ++ "\n" ++ blankLines "?\nb." ++ "\n" ++ rest) =
            .error error) ∨
        ∃ others macros',
          Declares false "a.hrl" ("-undef(a)." ++ "\n" ++ "?\nb." ++ "\n" ++ rest)
            (declarations ++ added ++ others) macros' ∧
          Declares false "a.hrl" ("-undef(a)." ++ "\n" ++ blankLines "?\nb." ++ "\n" ++ rest)
            (declarations ++ others) macros' := by
  have hfirst : Token.ofText "-undef(a)." =
      .ok [⟨.punct .minus, 1⟩, ⟨.atom "undef", 1⟩, ⟨.punct .openParen, 1⟩, ⟨.atom "a", 1⟩,
        ⟨.punct .closeParen, 1⟩, ⟨.dot, 1⟩] := by rfl
  have hclosed : Closed [⟨.punct .minus, 1⟩, ⟨.atom "undef", 1⟩, ⟨.punct .openParen, 1⟩,
      ⟨.atom "a", 1⟩, ⟨.punct .closeParen, 1⟩, ⟨.dot, 1⟩] := by
    rintro token ⟨⟩
    rfl
  have htext : Token.ofText "?\nb." = .ok recoverySample := by rfl
  have hchunk : IsDeclaration recoverySample :=
    ⟨[⟨.punct .question, 1⟩, ⟨.atom "b", 2⟩], ⟨.dot, 2⟩, rfl, by decide, rfl⟩
  exact ⟨htext, by rfl, ofText_recovers hfirst hclosed htext hchunk rfl⟩

end Header

end HeaderForms
