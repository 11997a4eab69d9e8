-- SUMMARY: Which argument stands for a parameter, in a use of a macro and in its translation.
import HeaderForms.Proofs.Macro.Definition
import HeaderForms.Proofs.Macro.Directive

/-!
# Parameters of macros

A directive is accepted whatever variables its parameters are, also where one of them comes twice. A
use in a header takes the argument at the first place of the parameter, and the template that the
macro is translated to takes the one at the last. The two are the same place exactly for a parameter
that comes once.
-/

namespace HeaderForms

open Form

/-! ## Places of a name -/

/-- The place where a name comes first. -/
def FirstAt (names : List String) (name : String) (place : Nat) : Prop :=
  names[place]? = some name ∧ ∀ earlier < place, names[earlier]? ≠ some name

/-- The place where a name comes last. -/
def LastAt (names : List String) (name : String) (place : Nat) : Prop :=
  names[place]? = some name ∧ ∀ later > place, names[later]? ≠ some name

section

variable {names : List String} {name : String}

theorem firstAt_iff_idxOf? {place : Nat} :
    FirstAt names name place ↔ names.idxOf? name = some place := by
  rw [List.idxOf?_eq_some_iff, FirstAt, List.getElem?_eq_some_iff]
  constructor
  · rintro ⟨⟨hplace, heq⟩, hearlier⟩
    refine ⟨hplace, heq, fun earlier hlt hother => hearlier earlier hlt ?_⟩
    rw [List.getElem?_eq_getElem (hlt.trans hplace), hother]
  · rintro ⟨hplace, heq, hearlier⟩
    refine ⟨⟨hplace, heq⟩, fun earlier hlt hother => hearlier earlier hlt ?_⟩
    exact (List.getElem?_eq_some_iff.1 hother).2

theorem exists_firstAt (h : name ∈ names) : ∃ place, FirstAt names name place := by
  obtain ⟨place, hplace⟩ := Option.isSome_iff_exists.1 (List.isSome_idxOf?.2 h)
  exact ⟨place, firstAt_iff_idxOf?.2 hplace⟩

theorem FirstAt.unique {place other : Nat} (h : FirstAt names name place)
    (h' : FirstAt names name other) : place = other := by
  rw [firstAt_iff_idxOf?] at h h'
  exact Option.some.inj (h.symm.trans h')

/-- The last place of a name is the first from behind. -/
theorem lastAt_of_reverse {place : Nat} (h : FirstAt names.reverse name place) :
    LastAt names name (names.length - 1 - place) := by
  obtain ⟨hname, hearlier⟩ := h
  have hlt : place < names.length := by
    rw [← List.length_reverse]
    exact (List.getElem?_eq_some_iff.1 hname).1
  refine ⟨by rw [← List.getElem?_reverse hlt, hname], fun later hlater hother => ?_⟩
  have hlength : later < names.length := (List.getElem?_eq_some_iff.1 hother).1
  refine hearlier (names.length - 1 - later) (by omega) ?_
  rw [List.getElem?_reverse (by omega), ← hother]
  congr 1
  omega

theorem LastAt.unique {place other : Nat} (h : LastAt names name place)
    (h' : LastAt names name other) : place = other := by
  rcases Nat.lt_trichotomy place other with hlt | heq | hlt
  · exact absurd h'.1 (h.2 other hlt)
  · exact heq
  · exact absurd h.1 (h'.2 place hlt)

theorem exists_lastAt (h : name ∈ names) : ∃ place, LastAt names name place := by
  obtain ⟨place, hplace⟩ := exists_firstAt (List.mem_reverse.2 h)
  exact ⟨_, lastAt_of_reverse hplace⟩

theorem FirstAt.le_lastAt {first last : Nat} (hfirst : FirstAt names name first)
    (hlast : LastAt names name last) : first ≤ last := by
  by_contra hlt
  exact hfirst.2 last (Nat.lt_of_not_le hlt) hlast.1

/-- The first place is the last where the name comes once. -/
theorem firstAt_eq_lastAt_iff {first last : Nat} (hfirst : FirstAt names name first)
    (hlast : LastAt names name last) : first = last ↔ names.count name = 1 := by
  obtain ⟨hlt, heq⟩ := List.getElem?_eq_some_iff.1 hfirst.1
  have hfront : name ∉ names.take first := by
    intro hmem
    obtain ⟨earlier, hearlier⟩ := List.mem_iff_getElem?.1 hmem
    rw [List.getElem?_take] at hearlier
    split at hearlier
    case isTrue hbefore => exact hfirst.2 earlier hbefore hearlier
    case isFalse => cases hearlier
  have hback : name ∈ names.drop (first + 1) ↔ first ≠ last := by
    rw [List.mem_iff_getElem?]
    constructor
    · rintro ⟨offset, hoffset⟩ rfl
      rw [List.getElem?_drop] at hoffset
      exact hlast.2 _ (by omega) hoffset
    · intro hne
      have hle := hfirst.le_lastAt hlast
      refine ⟨last - (first + 1), ?_⟩
      rw [List.getElem?_drop, ← hlast.1]
      congr 1
      omega
  have hsplit : names = names.take first ++ name :: names.drop (first + 1) := by
    conv_lhs => rw [← List.take_append_drop first names, List.drop_eq_getElem_cons hlt, heq]
  rw [hsplit, List.count_append, List.count_cons_self, List.count_eq_zero.2 hfront,
    ← not_iff_not, ← ne_eq, ← hback, ← List.count_pos_iff]
  omega

end

/-! ## Values at places -/

section

variable {β : Type} {names : List String} {values : List β} {name : String}
  (h : names.length = values.length)

include h

theorem exists_lookup_firstAt {place : Nat} (hplace : FirstAt names name place) :
    ∃ value, values[place]? = some value ∧ (names.zip values).lookup name = some value :=
  exists_lookup_zip h (firstAt_iff_idxOf?.1 hplace)

theorem exists_lookup_lastAt {place : Nat} (hplace : LastAt names name place) :
    ∃ value, values[place]? = some value ∧ (names.zip values).reverse.lookup name = some value := by
  have hname : name ∈ names := List.mem_of_getElem? hplace.1
  obtain ⟨behind, hbehind⟩ := exists_firstAt (List.mem_reverse.2 hname)
  have hreverse : names.reverse.length = values.reverse.length := by
    rw [List.length_reverse, List.length_reverse, h]
  obtain ⟨value, hvalue, hlookup⟩ := exists_lookup_firstAt hreverse hbehind
  have hlt : behind < values.length := by
    rw [← List.length_reverse]
    exact (List.getElem?_eq_some_iff.1 hvalue).1
  refine ⟨value, ?_, ?_⟩
  · rw [hplace.unique (lastAt_of_reverse hbehind), h, ← List.getElem?_reverse hlt, hvalue]
  · rw [List.zip, List.reverse_zipWith h]
    exact hlookup

end

/-! ## Uses in a header -/

namespace Expansion

variable {bindings : List (String × List Token)} {line : Nat}

/-- A run of tokens that ends in the two question marks of a parameter whose text is wanted. -/
def EndsQuoting (tokens : List Token) : Prop :=
  ∃ front first second, tokens = front ++ [first, second] ∧
    first.isPunct .question = true ∧ second.isPunct .question = true

theorem argument?_punct {token : Token} {mark : Punct} (h : token.isPunct mark = true) :
    argument? bindings token = none := by
  have hlexeme : token.lexeme = .punct mark := by simpa [Token.isPunct] using h
  rw [argument?, hlexeme]

theorem quotedArgument?_eq_none {first second param : Token}
    (h : first.isPunct .question = false ∨ second.isPunct .question = false) :
    quotedArgument? bindings first second param = none := by
  rw [quotedArgument?, if_neg]
  rcases h with h | h <;> simp [h]

/-- Two parts of a body are bound one after the other where no quoted parameter stands across
them. -/
theorem bind_append {before behind : List Token} {token : Token}
    (hbefore : ∀ front first second, before = front ++ [first, second] →
      quotedArgument? bindings first second token = none)
    (hbehind : ∀ first next, behind.head? = some next →
      quotedArgument? bindings first token next = none) :
    bind bindings line (before ++ token :: behind) =
      bind bindings line before ++ bind bindings line (token :: behind) := by
  fun_induction bind bindings line before with
  | case1 first second param rest argument hquoted ih =>
    have hrest := ih fun front third fourth heq => hbefore (first :: second :: param :: front) third
      fourth (by simp [heq])
    rw [List.cons_append, List.cons_append, List.cons_append, bind, hquoted, hrest]
    rfl
  | case2 first second param rest hquoted ih =>
    have hrest := ih fun front third fourth heq => hbefore (first :: front) third fourth
      (by rw [heq]; rfl)
    rw [List.cons_append, List.cons_append, List.cons_append, bind, hquoted]
    dsimp only
    rw [← List.cons_append, ← List.cons_append, hrest, List.append_assoc]
  | case3 first rest hshort ih =>
    have hrest := ih fun front third fourth heq => hbefore (first :: front) third fourth
      (by rw [heq]; rfl)
    match rest with
    | second :: param :: rest => exact absurd rfl (hshort second param rest)
    | [second] =>
      have hquoted := hbefore [] first second rfl
      rw [List.cons_append, List.singleton_append, bind, hquoted, List.append_assoc, ← hrest]
      rfl
    | [] =>
      rw [List.append_assoc, ← hrest]
      cases behind with
      | nil => rfl
      | cons next behind =>
        rw [List.cons_append, List.nil_append, bind, hbehind first next rfl]
  | case4 => rfl

theorem bind_var {token : Token} {argument : List Token}
    (h : argument? bindings token = some argument) (hpunct : token.isPunct .question = false)
    (behind : List Token) :
    bind bindings line (token :: behind) = argument ++ bind bindings line behind := by
  match behind with
  | [] | [_] =>
    rw [bind, h, Option.getD_some]
    intro second param behind heq
    cases heq
  | second :: param :: behind =>
    rw [bind, quotedArgument?_eq_none (.inl hpunct), h]
    rfl

/-- A use of a macro puts an argument in place of a parameter. -/
structure Puts (bindings : List (String × List Token)) (param : String) (argument : List Token) :
    Prop where
  plain : ∀ line before token behind, token.lexeme = .var param → ¬ EndsQuoting before →
    bind bindings line (before ++ token :: behind) =
      bind bindings line before ++ argument ++ bind bindings line behind
  quoted : ∀ line before first second token behind, token.lexeme = .var param →
    first.isPunct .question = true → second.isPunct .question = true →
    bind bindings line (before ++ first :: second :: token :: behind) =
      bind bindings line before ++
        ⟨.string (Token.textOf argument), line⟩ :: bind bindings line behind

/-- What a parameter is bound to is put in its place. -/
theorem puts_of_lookup {param : String} {argument : List Token}
    (h : bindings.lookup param = some argument) : Puts bindings param argument := by
  have hargument : ∀ token : Token, token.lexeme = .var param →
      argument? bindings token = some argument := by
    intro token htoken
    rw [argument?, htoken]
    exact h
  constructor
  case plain =>
    intro line before token behind htoken hbefore
    have hpunct : token.isPunct .question = false := by
      rw [Token.isPunct, htoken]
      rfl
    rw [bind_append, bind_var (hargument token htoken) hpunct, List.append_assoc]
    · intro front first second heq
      rw [quotedArgument?, if_neg]
      intro hquoting
      obtain ⟨hfirst, hsecond⟩ := Bool.and_eq_true_iff.1 hquoting
      exact hbefore ⟨front, first, second, heq, hfirst, hsecond⟩
    · exact fun first next _ => quotedArgument?_eq_none (.inr hpunct)
  case quoted =>
    intro line before first second token behind htoken hfirst hsecond
    have hnone : ∀ mark : Token, mark.isPunct .question = true → ∀ third fourth,
        quotedArgument? bindings third fourth mark = none := by
      intro mark hmark third fourth
      rw [quotedArgument?, argument?_punct hmark, ite_self]
    rw [bind_append (fun _ third fourth _ => hnone first hfirst third fourth), bind, quotedArgument?,
      hfirst, hsecond, hargument token htoken]
    · rfl
    · intro third next hnext
      cases hnext
      exact hnone second hsecond third first

end Expansion

/-! ## Templates -/

namespace Template

open MacroForm

/-- Applying the template of a body puts a form in place of a parameter. -/
structure Puts (template : Template) (params : List String) (body : Form) (args : List Form)
    (param : String) (arg : Form) : Prop where
  expand : template.expand args = fill (params.zip args) 1 (body.substitute (unquotes params))
  unquoted : fill (params.zip args) 1 ((Form.symbol param).substitute (unquotes params)) = .ok arg
  substituted : body.QuasiFree → ∃ pairs, template.expand args = .ok (body.substitute pairs) ∧
    (Form.symbol param).substitute pairs = arg

theorem puts_of_lookup {template : Template} {params : List String} {body : Form}
    {args : List Form} {param : String} {arg : Form} (hlength : params.length = args.length)
    (hexpand : template.expand args = fill (params.zip args) 1 (body.substitute (unquotes params)))
    (hparam : param ∈ params) (h : (params.zip args).reverse.lookup param = some arg) :
    template.Puts params body args param arg := by
  constructor
  case expand => exact hexpand
  case unquoted =>
    rw [substitute_unquotes_symbol, if_pos hparam, comma, call, fill, if_neg (by decide), lookup,
      symbol?, Option.bind_some, h]
  case substituted =>
    intro hfree
    refine ⟨symbolPairs (params.zip args).reverse, ?_, ?_⟩
    · exact hexpand.trans (fill_unquoted_of_lookup hlength (fun _ => rfl) hfree)
    · rw [substitute_symbol, h, Option.getD_some]

end Template

/-! ## Definitions -/

namespace MacroForm

/-- The definition of a single entry is applied by filling the template of its body. -/
theorem exists_of_ofEntries {name : String} {arity : MacroArity} {params : List String}
    {body : List Token} (hwell : MacroEntry.WellFormed ⟨arity, .defined params body⟩) {form : Form}
    (h : (ofEntries name [⟨arity, .defined params body⟩]).1 = some form) :
    ∃ template converted, Template.ofForm form = .ok template ∧ bodyForm body = .ok converted ∧
      ∀ args : List Form, args.length = params.length →
        template.expand args =
          Template.fill (params.zip args) 1 (converted.substitute (unquotes params)) := by
  have hentries : MacroEntry.AllWellFormed [⟨arity, .defined params body⟩] :=
    ⟨List.nodup_singleton _, fun entry hentry => List.mem_singleton.1 hentry ▸ hwell⟩
  have hdefined : definedEntries [⟨arity, .defined params body⟩] = [(arity, params, body)] := by
    cases arity <;> rfl
  have hread := @ofForm_definition name _ (backquote_not_mem hentries)
  rw [hdefined] at hread
  rw [ofEntries, hdefined] at h
  cases hbody : bodyForm body with
  | error obstacle =>
    rw [clauses, clause, hbody] at h
    cases h
  | ok converted =>
    have hform :
        form = call "defmacro" (.symbol name :: (clauses name [(arity, params, body)]).1) := by
      rw [clauses, clause, hbody] at h ⊢
      exact (Option.some.inj h).symm
    rw [List.filterMap_cons_some (templateClause?_ok hbody), List.filterMap_nil] at hread
    refine ⟨_, converted, hform ▸ hread, rfl, fun args hlength => ?_⟩
    have hbindings : (templatePattern params arity).bindings? args = some (params.zip args) := by
      cases arity with
      | noArgs =>
        cases ((hwell params body rfl).2 : params = [])
        rfl
      | fixed count => exact if_pos hlength.symm
    rw [Template.expand, Template.expandClauses, hbindings]

end MacroForm

open MacroForm

namespace Directive

/-- Every definition that is accepted takes the argument at the first place of a parameter where it
is used in a header, and that at the last where its translation is applied. -/
theorem places_of_readDefine {tokens : List Token} (htokens : ∀ token ∈ tokens, token.Lexed)
    {define : MacroDefine} (hread : readDefine tokens = .ok define) {params : List String}
    {body : List Token} (hdefinition : define.definition = .defined params body) {form : Form}
    (hform : (ofEntries define.name [⟨define.arity, define.definition⟩]).1 = some form) :
    ∃ template converted, Template.ofForm form = .ok template ∧ bodyForm body = .ok converted ∧
      ∀ param ∈ params, ∃ first last, FirstAt params param first ∧ LastAt params param last ∧
        (first = last ↔ params.count param = 1) ∧
        ∀ (arguments : List (List Token)) (args : List Form),
          arguments.length = params.length → args.length = params.length →
            (∃ argument, arguments[first]? = some argument ∧
              Expansion.Puts (params.zip arguments) param argument) ∧
            ∃ arg, args[last]? = some arg ∧ template.Puts params converted args param arg := by
  have hwell := wellFormed_readDefine htokens hread
  rw [hdefinition] at hwell hform
  obtain ⟨template, converted, htemplate, hconverted, hexpand⟩ := exists_of_ofEntries hwell hform
  refine ⟨template, converted, htemplate, hconverted, fun param hparam => ?_⟩
  obtain ⟨first, hfirst⟩ := exists_firstAt hparam
  obtain ⟨last, hlast⟩ := exists_lastAt hparam
  refine ⟨first, last, hfirst, hlast, firstAt_eq_lastAt_iff hfirst hlast, ?_⟩
  intro arguments args harguments hargs
  obtain ⟨argument, hargument, hlookup⟩ := exists_lookup_firstAt harguments.symm hfirst
  obtain ⟨arg, harg, hlookup'⟩ := exists_lookup_lastAt hargs.symm hlast
  exact ⟨⟨argument, hargument, Expansion.puts_of_lookup hlookup⟩,
    arg, harg, Template.puts_of_lookup hargs.symm (hexpand args hargs) hparam hlookup'⟩

def twiceBody : List Token :=
  [.punct .openBrace, .var "X", .punct .comma, .var "Y", .punct .closeBrace].map (Token.mk · 1)

/-- The definition `-define(M(X, Y, X), {X, Y}).` -/
def twiceTokens : List Token :=
  [.punct .minus, .atom "define", .punct .openParen, .var "M", .punct .openParen, .var "X",
    .punct .comma, .var "Y", .punct .comma, .var "X", .punct .closeParen, .punct .comma].map
      (Token.mk · 1) ++ twiceBody ++ [⟨.punct .closeParen, 1⟩, ⟨.dot, 1⟩]

theorem lexed_twiceTokens : ∀ token ∈ twiceTokens, token.Lexed := by
  intro token htoken name hname
  have hnames : ∀ other ∈ twiceTokens, other.lexeme = .var name →
      name = "M" ∨ name = "X" ∨ name = "Y" := by
    simp +contextual [twiceTokens, twiceBody, eq_comm]
  rcases hnames token htoken hname with rfl | rfl | rfl
  · exact ⟨'M', [], rfl, by decide⟩
  · exact ⟨'X', [], rfl, by decide⟩
  · exact ⟨'Y', [], rfl, by decide⟩

theorem readDefine_twice : readDefine twiceTokens =
    .ok ⟨"M", .fixed 3, .defined ["X", "Y", "X"] twiceBody⟩ := by
  rfl

/-- The same definition stands for its first argument in a header and for its third when its
translation is applied. -/
theorem places_of_readDefine_twice :
    ∃ form template, (ofEntries "M" [⟨.fixed 3, .defined ["X", "Y", "X"] twiceBody⟩]).1 = some form ∧
      Template.ofForm form = .ok template ∧
      (∀ first second third, Expansion.Puts (["X", "Y", "X"].zip [first, second, third]) "X" first) ∧
      ∀ first second third,
        template.expand [first, second, third] = .ok (call "tuple" [third, second]) := by
  cases hform : (ofEntries "M" [⟨.fixed 3, .defined ["X", "Y", "X"] twiceBody⟩]).1 with
  | none => cases hform
  | some form =>
    obtain ⟨template, converted, htemplate, hconverted, hplaces⟩ :=
      places_of_readDefine lexed_twiceTokens readDefine_twice rfl hform
    obtain ⟨first, last, hfirst, -, -, hputs⟩ := hplaces "X" (by decide)
    cases hfirst.unique (⟨rfl, nofun⟩ : FirstAt ["X", "Y", "X"] "X" 0)
    refine ⟨form, template, rfl, htemplate, fun one two three => ?_, fun one two three => ?_⟩
    · obtain ⟨⟨argument, hargument, hbind⟩, -⟩ :=
        hputs [one, two, three] [.integer 1, .integer 2, .integer 3] rfl rfl
      cases hargument
      exact hbind
    · obtain ⟨-, arg, -, hfill⟩ := hputs [[], [], []] [one, two, three] rfl rfl
      have hbody : bodyForm twiceBody = .ok (call "tuple" [.symbol "X", .symbol "Y"]) := by rfl
      cases hbody.symm.trans hconverted
      rw [hfill.expand]
      rfl

/-- No one place serves both for a parameter that comes twice. -/
theorem not_same_place :
    ¬ ∀ (tokens : List Token) (define : MacroDefine) (params : List String) (body : List Token)
        (form : Form) (template : Template) (converted : Form),
      (∀ token ∈ tokens, token.Lexed) → readDefine tokens = .ok define →
      define.definition = .defined params body →
      (ofEntries define.name [⟨define.arity, define.definition⟩]).1 = some form →
      Template.ofForm form = .ok template → bodyForm body = .ok converted →
      ∀ param ∈ params, ∃ place : Nat, ∀ (arguments : List (List Token)) (args : List Form),
        arguments.length = params.length → args.length = params.length →
          ∃ argument arg, arguments[place]? = some argument ∧ args[place]? = some arg ∧
            Expansion.Puts (params.zip arguments) param argument ∧
            template.Puts params converted args param arg := by
  intro hall
  have hbody : bodyForm twiceBody = .ok (call "tuple" [.symbol "X", .symbol "Y"]) := by rfl
  obtain ⟨place, hplace⟩ := hall twiceTokens _ _ _ _ _ _ lexed_twiceTokens readDefine_twice rfl rfl
    rfl hbody "X" (by decide)
  obtain ⟨argument, arg, hargument, harg, hhost, htemplate⟩ :=
    hplace [[], [⟨.dot, 1⟩], [⟨.dot, 2⟩]] [.integer 1, .integer 2, .integer 3] rfl rfl
  -- The header takes the first argument, the one without tokens, and the template the form 3.
  have hplain := hhost.plain 1 [] ⟨.var "X", 1⟩ [] rfl (by simp [Expansion.EndsQuoting])
  have hempty : argument = [] := (hplain.trans (List.append_nil argument)).symm
  cases htemplate.unquoted
  match place with
  | 0 | 1 | _ + 3 => cases harg
  | 2 =>
    rw [hempty] at hargument
    cases hargument

end Directive

end HeaderForms
