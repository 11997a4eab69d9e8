-- SUMMARY: The integers of a header stay within 64 bits from its text to its trees.
import HeaderForms.Proofs.Declaration.Integers
import HeaderForms.Proofs.Header.History
import HeaderForms.Proofs.Macro.Origin
import HeaderForms.Proofs.Token.Literal

/-!
# Integers of headers

The numbers of a text become tokens, are moved about by macros and are read by the grammar, which
negates some of them. All of this is exact: a number is a token only below 2^63, a line number is
far below that in any text, and macros make no other numbers. So each number that the grammar meets
can be negated, and what it puts into a tree is the number that was written. A number that is too
large for this fails the parse that comes to it.
-/

namespace HeaderForms.Header

open Numeral

variable {legacy : Bool} {context : FileContext} {file : String} {macros : MacroTable}
  {sources tokens input : List Token} {chunks : List (List Token)} {located : LocatedDeclaration}

/-! ## Bodies of macros -/

theorem subset_of_mem_chunks {chunk : List Token} (h : chunk ∈ Header.chunks tokens) :
    chunk ⊆ tokens :=
  fun token htoken => (mem_of_mem_chunksFrom h token htoken).resolve_left List.not_mem_nil

theorem bodyIn_of_change? {chunk : List Token} {change : MacroChange}
    (h : change? chunk = some change) : change.entry.BodyIn chunk := by
  intro params body hdefinition
  cases change with
  | define added =>
    obtain ⟨_, _, front, close, stop, hdefinition', -, -, rfl⟩ :=
      Directive.exists_of_define? (define?_of_change? h)
    cases hdefinition'.symm.trans hdefinition
    exact fun token htoken => by simp [htoken]
  | undefine => cases hdefinition

theorem every_initialMacros : initialMacros.Every (MacroEntry.BodyIn sources) := by
  have hseeds : ∀ change ∈ seeds, change.entry.BodyIn sources := by
    intro change hmem
    obtain ⟨name, -, rfl⟩ := List.mem_map.1 hmem
    exact nofun
  exact MacroTable.every_empty.foldl_apply hseeds

theorem every_readChunk {chunk : List Token} (hchunk : chunk ⊆ sources)
    (h : macros.Every (MacroEntry.BodyIn sources)) :
    (readChunk legacy context macros chunk).2.Every (MacroEntry.BodyIn sources) := by
  rw [macros_readChunk]
  cases hchange : change? chunk with
  | none => exact h
  | some change =>
    refine h.apply fun params body hdefinition => ?_
    exact List.Subset.trans (bodyIn_of_change? hchange params body hdefinition) hchunk

/-- Every definition that is reached in a text has its body from the text. -/
theorem every_readChunks (hchunks : ∀ chunk ∈ chunks, chunk ⊆ sources)
    (h : macros.Every (MacroEntry.BodyIn sources)) :
    (readChunks legacy context macros chunks).2.Every (MacroEntry.BodyIn sources) :=
  invariant_readChunks (fun chunk hchunk _ => every_readChunk (hchunks chunk hchunk)) h

/-! ## What the grammar is run on -/

/-- The tokens are those of a declaration of the header with its macro uses expanded, or those of
the body of one of its macros with its uses as calls. -/
inductive GrammarInput (legacy : Bool) (file : String) (tokens : List Token) :
    List Token → Prop where
  | declaration {before after : List (List Token)} {chunk input : List Token}
    (hchunk : Header.chunks tokens = before ++ chunk :: after)
    (hexpand : Expansion.expand (readChunks legacy (.ofFile file) initialMacros before).2
      (.ofFile file) chunk = .ok input) : GrammarInput legacy file tokens input
  | body {name : String} {entries : List MacroEntry} {entry : MacroEntry} {params : List String}
    {body : List Token} (hentries : (name, entries) ∈ (ofTokens legacy file tokens).macros.macros)
    (hentry : entry ∈ entries) (hdefinition : entry.definition = .defined params body) :
    GrammarInput legacy file tokens (MacroForm.expressionTokens body)

theorem GrammarInput.numberOf (h : GrammarInput legacy file tokens input) :
    ∀ token ∈ input, token.lexeme.NumberOf tokens := by
  have htable : ∀ read, read ⊆ Header.chunks tokens →
      (readChunks legacy (.ofFile file) initialMacros read).2.Every (MacroEntry.BodyIn tokens) :=
    fun read hread => every_readChunks (fun chunk hchunk => subset_of_mem_chunks (hread hchunk))
      every_initialMacros
  cases h with
  | @declaration before after chunk _ hchunk hexpand =>
    have hsubset : chunk ⊆ tokens := subset_of_mem_chunks (hchunk ▸ by simp)
    have hmade := Expansion.madeOf_expand hexpand (htable before (hchunk ▸ by simp)) hsubset
    exact fun token htoken => (hmade token htoken).number
  | body hentries hentry hdefinition =>
    have hbody := htable _ (List.Subset.refl _) _ _ hentries _ hentry _ _ hdefinition
    exact MacroForm.numberOf_expressionTokens hbody

/-! ## Declarations -/

/-- A declaration of a run of chunks is read off one of them, by the definitions before it. -/
theorem exists_of_mem_readChunks (h : located ∈ (readChunks legacy context macros chunks).1) :
    (∃ error, located.declaration = .unreadable error) ∨
      ∃ before chunk after, chunks = before ++ chunk :: after ∧ located.declaration ∈
        (readChunk legacy context (readChunks legacy context macros before).2 chunk).1 := by
  induction chunks generalizing macros with
  | nil => cases h
  | cons chunk chunks ih =>
    rw [readChunks] at h
    split at h
    case isFalse =>
      obtain rfl := List.mem_singleton.1 h
      exact .inl ⟨_, rfl⟩
    case isTrue hcomplete =>
      obtain hhere | hbehind := List.mem_append.1 h
      · obtain ⟨declaration, hmem, rfl⟩ := List.mem_map.1 hhere
        exact .inr ⟨[], chunk, chunks, rfl, hmem⟩
      · refine (ih hbehind).imp_right ?_
        rintro ⟨before, other, after, rfl, hmem⟩
        refine ⟨chunk :: before, other, after, rfl, ?_⟩
        rwa [readChunks, if_pos hcomplete]

/-- A chunk leaves an error, the mark of a directive, or what the grammar reads off its tokens. -/
theorem exists_of_mem_readChunk {chunk : List Token} {declaration : Declaration}
    (h : declaration ∈ (readChunk legacy context macros chunk).1) :
    (∃ error, declaration = .unreadable error) ∨ (∃ name, declaration = .ignored name) ∨
      ∃ input parsed, Expansion.expand macros context chunk = .ok input ∧
        Declaration.ofTokens input = .ok parsed ∧ declaration ∈ splitRecord legacy parsed := by
  have hunreadable : ∀ error : SourceError, declaration ∈ [.unreadable error] →
      ∃ error, declaration = .unreadable error :=
    fun error hmem => ⟨error, List.mem_singleton.1 hmem⟩
  unfold readChunk at h
  split at h
  case h_1 | h_2 =>
    split at h
    case h_1 => cases h
    case h_2 => exact .inl (hunreadable _ h)
  case h_3 =>
    split at h
    case h_1 name _ => exact .inr (.inl ⟨name, List.mem_singleton.1 h⟩)
    case h_2 =>
      split at h
      case h_2 => exact .inl (hunreadable _ h)
      case h_1 declarations hread =>
        refine .inr (.inr ?_)
        unfold readPlain at hread
        cases hexpand : Expansion.expand macros context chunk with
        | error =>
          rw [hexpand] at hread
          cases hread
        | ok input =>
          rw [hexpand] at hread
          cases hparsed : Declaration.ofTokens input with
          | error =>
            simp only [hparsed, bind, Except.bind] at hread
            cases hread
          | ok parsed =>
            simp only [hparsed, bind, Except.bind] at hread
            cases hread
            exact ⟨input, parsed, rfl, hparsed, h⟩

/-- Both halves of a typed record have the numbers of the record. -/
theorem inRange_splitRecord {declaration : Declaration} (h : declaration.InRange) :
    ∀ half ∈ splitRecord legacy declaration, half.InRange := by
  cases declaration with
  | record name fields =>
    rw [splitRecord]
    split
    case isFalse => exact List.forall_mem_singleton.2 h
    case isTrue =>
      refine List.forall_mem_cons.2 ⟨?_, List.forall_mem_singleton.2 ⟨h.exprs, h.types, h.arities⟩⟩
      have hdefaults : (fields.map RecordFieldDecl.untyped).filterMap RecordFieldDecl.default =
          fields.filterMap RecordFieldDecl.default := by
        rw [List.filterMap_map]
        rfl
      have htypes : (fields.map RecordFieldDecl.untyped).filterMap RecordFieldDecl.type = [] := by
        simp [RecordFieldDecl.untyped]
      refine ⟨?_, ?_, List.forall_mem_nil _⟩
      · rw [Declaration.exprs, hdefaults]
        exact h.exprs
      · rw [Declaration.types, htypes]
        exact List.forall_mem_nil _
  | _ => exact List.forall_mem_singleton.2 h

theorem inRange_of_mem_declarations
    (hgood : ∀ input, GrammarInput legacy file tokens input →
      ∀ token ∈ input, token.lexeme.InRange)
    (h : located ∈ (ofTokens legacy file tokens).declarations) : located.declaration.InRange := by
  obtain hread | hend := List.mem_append.1 h
  case inr =>
    obtain rfl := List.mem_singleton.1 hend
    exact Declaration.inRange_of_nil rfl rfl rfl
  case inl =>
    obtain ⟨error, herror⟩ | ⟨before, chunk, after, hchunks, hmem⟩ := exists_of_mem_readChunks hread
    · rw [herror]
      exact Declaration.inRange_of_nil rfl rfl rfl
    · obtain ⟨error, herror⟩ | ⟨name, hname⟩ | ⟨input, parsed, hexpand, hparsed, hhalf⟩ :=
        exists_of_mem_readChunk hmem
      · rw [herror]
        exact Declaration.inRange_of_nil rfl rfl rfl
      · rw [hname]
        exact Declaration.inRange_of_nil rfl rfl rfl
      · obtain ⟨_, -, -, hlength⟩ := Expansion.expand_eq_ok_iff.1 hexpand
        have hlimit : 100000 + 1 < int64Bound := by decide +kernel
        refine inRange_splitRecord (Declaration.inRange_of_ofTokens
          (hgood input (.declaration hchunks hexpand)) ?_ hparsed) _ hhalf
        exact Nat.lt_of_le_of_lt (Nat.succ_le_succ hlength) hlimit

/-! ## Headers -/

/-- No integer of a header is changed or too large on its way from the text into the trees. -/
structure IntegersFit (legacy : Bool) (file source : String) (tokens : List Token) : Prop where
  /-- Each number of the text is below 2^63. A token of digits is the longest literal at its place,
  and it is the number that the literal writes or, where that is too large, no number. -/
  literals : ∀ token ∈ tokens, token.lexeme.InRange ∧
    (token.lexeme.isInteger = true → token.IsLiteralOf source)
  /-- The grammar meets no numbers but those of the text and its lines, all below 2^63. -/
  inputs : ∀ input, GrammarInput legacy file tokens input → ∀ token ∈ input,
    token.lexeme.InRange ∧ token.lexeme.NumberOf tokens
  /-- What the parser negates is a signed 64-bit integer, and so is what comes of it. -/
  negations : ∀ input, GrammarInput legacy file tokens input → ∀ number,
    Parser.Negates input number → inInt64 number = true ∧ inInt64 (-number) = true
  /-- An integer that is too large fails the parse, as a declaration and as an expression. -/
  oversized : ∀ input, GrammarInput legacy file tokens input → ∀ token ∈ input, ∀ text,
    token.lexeme = .bigInteger text →
      (∃ error, (Parser.declaration (input.length + 1)).parse input = .error error) ∧
        ∃ error, Expr.ofTokens input = .error error
  declarations : ∀ located ∈ (ofTokens legacy file tokens).declarations,
    located.declaration.InRange
  bodies : ∀ input, GrammarInput legacy file tokens input → ∀ expr,
    Expr.ofTokens input = .ok expr → expr.InRange

/-- Integer arithmetic does not overflow where a header is read. A text in memory is shorter than
2^63 characters, and so it has fewer lines than that. -/
theorem integersFit_of_ofText {source : String} (legacy : Bool) (file : String)
    (hlength : source.length < int64Bound) (h : Token.ofText source = .ok tokens) :
    IntegersFit legacy file source tokens := by
  have hgood : ∀ input, GrammarInput legacy file tokens input →
      ∀ token ∈ input, token.lexeme.InRange := by
    intro input hinput token htoken value hvalue
    obtain ⟨source, hmem, hsame⟩ | ⟨source, hmem, rfl⟩ := hinput.numberOf token htoken value hvalue
    · exact (Token.isLexed_ofText h source hmem).inRange value hsame
    · exact Nat.lt_of_le_of_lt (Token.line_le_length_of_ofText h source hmem) hlength
  exact {
    literals := fun token htoken =>
      ⟨(Token.isLexed_ofText h token htoken).inRange, Token.isLiteralOf_of_ofText h token htoken⟩
    inputs := fun input hinput token htoken =>
      ⟨hgood input hinput token htoken, hinput.numberOf token htoken⟩
    negations := fun input hinput number hnegates =>
      (Parser.inRange_of_negates (hgood input hinput) hnegates).inInt64
    oversized := fun input hinput token htoken text hbig =>
      ⟨Parser.takesAll_declaration.exists_error (Parser.keeps_declaration (Nat.succ_pos _))
          htoken hbig,
        Parser.takesAll_singleExpr.exists_error (Parser.keeps_singleExpr (Nat.succ_pos _))
          htoken hbig⟩
    declarations := fun located hmem => inRange_of_mem_declarations hgood hmem
    bodies := fun input hinput expr hexpr =>
      (Expr.shaped_of_ofTokens (hgood input hinput) hexpr).inRange }

def integersSource : String :=
  "-a([-2#101,?LINE]).\n-b(9223372036854775808)."

def integersTokens : List Token :=
  [⟨.punct .minus, 1⟩, ⟨.atom "a", 1⟩, ⟨.punct .openParen, 1⟩, ⟨.punct .openBracket, 1⟩,
   ⟨.punct .minus, 1⟩, ⟨.integer 5, 1⟩, ⟨.punct .comma, 1⟩, ⟨.punct .question, 1⟩, ⟨.var "LINE", 1⟩,
   ⟨.punct .closeBracket, 1⟩, ⟨.punct .closeParen, 1⟩, ⟨.dot, 1⟩, ⟨.punct .minus, 2⟩,
   ⟨.atom "b", 2⟩, ⟨.punct .openParen, 2⟩, ⟨.bigInteger "9223372036854775808", 2⟩,
   ⟨.punct .closeParen, 2⟩, ⟨.dot, 2⟩]

/-- The line of the use becomes a number, and the integer of 2^63 none. -/
theorem integersFit_sample :
    integersSource.length < int64Bound ∧ Token.ofText integersSource = .ok integersTokens ∧
      IntegersFit false "a.hrl" integersSource integersTokens := by
  have hlength : integersSource.length < int64Bound := by decide +kernel
  have hsome : (Token.ofText integersSource).toOption = some integersTokens := by decide +kernel
  have htokens : Token.ofText integersSource = .ok integersTokens := by
    cases hlexed : Token.ofText integersSource with
    | error error =>
      rw [hlexed] at hsome
      cases hsome
    | ok tokens =>
      rw [hlexed] at hsome
      exact congrArg Except.ok (Option.some.inj hsome)
  exact ⟨hlength, htokens, integersFit_of_ofText false "a.hrl" hlength htokens⟩

end HeaderForms.Header
