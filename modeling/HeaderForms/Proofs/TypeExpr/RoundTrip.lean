-- SUMMARY: Reading the rendering of a type gives the type back.
import HeaderForms.Proofs.TypeExpr.Reading
import HeaderForms.Proofs.TypeExpr.Shape

/-!
# Reading types back

Rendering a type that tokens hold and reading the lexemes gives the type back. The type has the
shape that the grammar gives, so the induction is on shapes, and the definition of a type is what
the rendering is read in.
-/

namespace HeaderForms

open HeaderForms.Parser HeaderForms.Render
open HeaderForms.Expr (reads_expectEnd)

namespace TypeExpr

variable {type : TypeExpr}

/-! ## All types -/

/-- Every type of the shape that the grammar gives is readable. -/
theorem readable_of_shaped {good : Lexeme → Prop} (h : type.Shaped good) : Readable type := by
  induction h with
  | var => exact readable_var _
  | atom => exact readable_atom _
  | integer => exact readable_integer _
  | nil => exact readable_nil
  | named _ hargs => exact readable_named _ _ hargs
  | union hlength _ halternatives => exact readable_union hlength halternatives
  | range _ _ hlow hhigh => exact readable_range hlow hhigh
  | tuple _ hitems => exact readable_tuple hitems
  | list _ hitem => exact readable_list hitem
  | nonEmptyList _ hitem => exact readable_nonEmptyList hitem
  | map _ hparts => exact readable_map hparts
  | anyFun => exact readable_anyFun
  | anyArgsFun _ hresult => exact readable_anyArgsFun hresult
  | fun_ _ _ hargs hresult => exact readable_fun hargs hresult
  | record _ htypes => exact readable_record htypes
  | annotated _ htype => exact readable_annotated _ htype
  | bitstring => exact readable_bitstring _ _

end TypeExpr

/-! ## The definition of a type -/

namespace Parser

variable {limit : Nat} {type : TypeExpr}

theorem reads_typeDecl (h : TypeExpr.Readable type) (hlimit : type.render.length ≤ limit)
    (declare : String → List String → TypeExpr → Declaration) :
    Reads (typeDecl limit declare)
      (.atom "x" :: .punct .openParen :: .punct .closeParen :: .punct .doubleColon :: type.render)
      (fun ahead => ahead = some .dot) (declare "x" [] type) := by
  have hread : Reads (typeWithin limit) type.render (fun ahead => ahead = some .dot) type := by
    refine (h.reads_nested hlimit).mono ?_
    rintro ahead rfl
    exact typeFollows_of_none rfl
  have hparams : Reads (delimited limit .closeParen expectVar) [.punct .closeParen]
      (fun _ => True) [] := leads_eat Reads.pure
  refine leads_expectAtom (leads_expectPunct ?_)
  exact hparams.bind (leads_expectPunct hread.bind_pure) fun _ _ => trivial

theorem reads_declaration (h : TypeExpr.Readable type) (hlimit : type.render.length ≤ limit) :
    Reads (declaration limit) (typeHead ++ type.render ++ [.dot]) (fun ahead => ahead = none)
      (.type "x" [] type) := by
  have hattribute : Reads (attributeDecl limit) (typeHead.tail ++ type.render)
      (fun ahead => ahead = some .dot) (.type "x" [] type) := by
    have hmay : mayBeWrapped "type" = true := by decide
    have hbody : Reads (attributeBody limit "type" >>= pure) (typeHead.tail.tail ++ type.render)
        (fun ahead => ahead = some .dot) (.type "x" [] type) := by
      rw [bind_pure]
      exact reads_typeDecl h hlimit .type
    refine leads_takeAny rfl ?_
    rw [hmay]
    -- The parenthesis behind the name of the type is no wrapping.
    change Leads (openWrap >>= _) _ _ _
    rw [openWrap, bind_assoc]
    exact leads_peekTwo hbody
  exact leads_eat (hattribute.bind (reads_expectEnd.bind Reads.pure fun _ hahead => hahead)
    fun _ _ => rfl)

end Parser

/-- A type that tokens hold, its rendering as the definition of a type holds again. -/
theorem Declaration.ofTokens_renderedType {limit : Nat} {tokens rest : List Token} {type : TypeExpr}
    (h : typeWithin limit tokens = .ok (type, rest)) {printed : List Token}
    (hprinted : printed.map (·.lexeme) = typeHead ++ type.render ++ [.dot]) :
    ofTokens printed = .ok (.type "x" [] type) := by
  have hlength : printed.length = typeHead.length + type.render.length + 1 := by
    rw [← List.length_map (fun token : Token => token.lexeme), hprinted, List.length_append,
      List.length_append, List.length_singleton]
  have hreadable := TypeExpr.readable_of_shaped (TypeExpr.shaped_of_typeWithin h)
  have hread := @reads_declaration (printed.length + 1) type hreadable (by omega) printed [] hprinted
    rfl
  rw [List.append_nil] at hread
  rw [ofTokens, parse, hread]
  rfl

/-- The type `(N :: -1..1) | [T, ...] | M :: fun((...) -> <<_:8, _:_*2>>) | #{k => m:t()}`. -/
def TypeExpr.sample : TypeExpr :=
  .union [.annotated "N" (.range (.integer (-1)) (.integer 1)), .nonEmptyList (.var "T"),
    .annotated "M" (.union [.anyArgsFun (.bitstring 8 2),
      .map [.mk (.atom "k") (.named (some "m") "t" []) false]])]

/-- The name of the first alternative would reach over the others without its parentheses, and that
of the last one needs none; the segments of the bit string come back in the other order. -/
theorem Declaration.ofTokens_renderedType_sample :
    let tokens := [Lexeme.punct .openParen, .var "N", .punct .doubleColon, .punct .openParen,
      .punct .minus, .integer 1, .punct .closeParen, .punct .range, .integer 1, .punct .closeParen,
      .punct .bar, .punct .openBracket, .var "T", .punct .comma, .punct .ellipsis,
      .punct .closeBracket, .punct .bar, .punct .openParen, .var "M", .punct .doubleColon,
      .keyword .fun_, .punct .openParen, .punct .openParen, .punct .ellipsis, .punct .closeParen,
      .punct .arrow, .punct .openBinary, .var "_", .punct .colon, .var "_", .punct .star, .integer 2,
      .punct .comma, .var "_", .punct .colon, .integer 8, .punct .closeBinary, .punct .closeParen,
      .punct .bar, .punct .hash, .punct .openBrace, .atom "k", .punct .rightDoubleArrow, .atom "m",
      .punct .colon, .atom "t", .punct .openParen, .punct .closeParen, .punct .closeBrace,
      .punct .closeParen, .dot]
    let printed := typeHead ++ [.punct .openParen, .var "N", .punct .doubleColon, .punct .minus,
      .integer 1, .punct .range, .integer 1, .punct .closeParen, .punct .bar, .punct .openBracket,
      .var "T", .punct .comma, .punct .ellipsis, .punct .closeBracket, .punct .bar, .var "M",
      .punct .doubleColon, .keyword .fun_, .punct .openParen, .punct .openParen, .punct .ellipsis,
      .punct .closeParen, .punct .arrow, .punct .openBinary, .var "_", .punct .colon, .integer 8,
      .punct .comma, .var "_", .punct .colon, .var "_", .punct .star, .integer 2,
      .punct .closeBinary, .punct .closeParen, .punct .bar, .punct .hash, .punct .openBrace,
      .atom "k", .punct .rightDoubleArrow, .atom "m", .punct .colon, .atom "t", .punct .openParen,
      .punct .closeParen, .punct .closeBrace, .dot]
    typeWithin 60 (tokens.map (⟨·, 1⟩)) = .ok (TypeExpr.sample, [⟨.dot, 1⟩]) ∧
      ofTokens (printed.map (⟨·, 2⟩)) = .ok (.type "x" [] TypeExpr.sample) := by
  intro tokens printed
  have hread : typeWithin 60 (tokens.map (⟨·, 1⟩)) = .ok (TypeExpr.sample, [⟨.dot, 1⟩]) := by rfl
  exact ⟨hread, ofTokens_renderedType hread rfl⟩

end HeaderForms
