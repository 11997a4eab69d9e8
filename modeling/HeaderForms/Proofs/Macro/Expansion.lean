-- SUMMARY: Macro expansion without limits, and what the limits leave of it.
import Mathlib.Logic.Relation
import HeaderForms.Macro.Expansion

/-!
# Expansion without limits

A derivation expands tokens use by use, to any depth and any length. It keeps count of how deep
definitions nest in it. The expansion that the library runs succeeds exactly when there is a
derivation within its two limits, and then with the same tokens.
-/

namespace HeaderForms.Expansion

/-! ## Uses -/

/-- A use of a macro, with its arguments if the macro is defined for that many. -/
structure Use where
  name : String
  line : Nat
  arguments : Option (List (List Token))

/-- What stands behind a name is no argument list of a length that the macro is defined for. What
starts like an argument list must be a complete one. -/
def Bare (table : MacroTable) (name : String) (tokens : List Token) : Prop :=
  ∀ paren rest, tokens = paren :: rest → paren.isPunct .openParen = true →
    ∃ arguments behind, argumentsFrom 0 [] [] rest = some (arguments, behind) ∧
      table.get? name (.fixed arguments.length) = none

/-- `UseAt table tokens use behind` says that `tokens` start with `use`, and then comes `behind`. -/
inductive UseAt (table : MacroTable) : List Token → Use → List Token → Prop where
  | applied {mark next paren : Token} {rest behind : List Token} {name : String}
      {arguments : List (List Token)} {definition : MacroDefinition} :
      mark.isPunct .question = true → next.name? = some name → paren.isPunct .openParen = true →
      argumentsFrom 0 [] [] rest = some (arguments, behind) →
      table.get? name (.fixed arguments.length) = some definition →
      UseAt table (mark :: next :: paren :: rest) ⟨name, mark.line, some arguments⟩ behind
  | bare {mark next : Token} {behind : List Token} {name : String} :
      mark.isPunct .question = true → next.name? = some name → Bare table name behind →
      UseAt table (mark :: next :: behind) ⟨name, mark.line, none⟩ behind

namespace Use

/-- The arity whose definition the use stands for. -/
def arity (use : Use) : MacroArity :=
  match use.arguments with
  | some arguments => .fixed arguments.length
  | none => .noArgs

/-- The tokens that the use stands for, before they are expanded in turn. -/
def body? (table : MacroTable) (use : Use) : Option (List Token) :=
  match table.get? use.name use.arity, use.arguments with
  | some (.defined params body), some arguments =>
    some (bind (params.zip arguments) use.line body)
  | some (.defined _ body), none => some body
  | _, _ => none

/-- The one token that a use of a predefined macro stands for. -/
def token? (table : MacroTable) (context : FileContext) (use : Use) : Option Token :=
  match table.get? use.name use.arity, use.arguments with
  | some .predefined, none =>
    (context.predefined? use.name use.line).map fun lexeme => ⟨lexeme, use.line⟩
  | _, _ => none

end Use

/-! ## Derivations -/

/-- `Expands table context tokens out depth` says that `tokens` expand to `out` through definitions
that nest `depth` deep. -/
inductive Expands (table : MacroTable) (context : FileContext) :
    List Token → List Token → Nat → Prop where
  | nil : Expands table context [] [] 0
  | plain {token : Token} {rest out : List Token} {depth : Nat} :
      token.isPunct .question = false → Expands table context rest out depth →
      Expands table context (token :: rest) (token :: out) depth
  | definition {tokens behind body inner out : List Token} {use : Use} {depth depth' : Nat} :
      UseAt table tokens use behind → use.body? table = some body →
      Expands table context body inner depth → Expands table context behind out depth' →
      Expands table context tokens (inner ++ out) (max (depth + 1) depth')
  | predefined {tokens behind out : List Token} {use : Use} {token : Token} {depth : Nat} :
      UseAt table tokens use behind → use.token? table context = some token →
      Expands table context behind out depth →
      Expands table context tokens (token :: out) depth

/-! ## Arguments -/

theorem length_argumentsFrom {depth : Nat} {current behind tokens : List Token}
    {done arguments : List (List Token)}
    (h : argumentsFrom depth current done tokens = some (arguments, behind)) :
    behind.length < tokens.length := by
  fun_induction argumentsFrom depth current done tokens with
  | case1 | case2 => cases h
  | case4 | case5 =>
    cases h
    exact Nat.lt_add_one _
  | case3 _ _ _ _ _ _ _ ih => exact Nat.lt_succ_of_lt (ih h)
  | case6 _ _ _ _ _ _ _ _ _ ih => exact Nat.lt_succ_of_lt (ih h)
  | case7 _ _ _ _ _ _ _ _ _ _ ih => exact Nat.lt_succ_of_lt (ih h)
  | case8 _ _ _ _ _ _ _ _ _ _ ih => exact Nat.lt_succ_of_lt (ih h)

section

variable {table : MacroTable} {context : FileContext}

theorem useArguments_eq_some_iff {name : String} {tokens behind : List Token}
    {arguments : List (List Token)} :
    useArguments table name tokens = .ok (some arguments, behind) ↔
      ∃ paren rest definition, tokens = paren :: rest ∧ paren.isPunct .openParen = true ∧
        argumentsFrom 0 [] [] rest = some (arguments, behind) ∧
        table.get? name (.fixed arguments.length) = some definition := by
  constructor
  · intro h
    cases tokens with
    | nil => cases h
    | cons paren rest =>
      rw [useArguments] at h
      split at h
      case isFalse => cases h
      case isTrue hparen =>
        split at h
        case h_2 => cases h
        case h_1 arguments' behind' harguments =>
          split at h
          case isFalse => cases h
          case isTrue hdefined =>
            cases h
            obtain ⟨definition, hdefinition⟩ := Option.isSome_iff_exists.1 hdefined
            exact ⟨paren, rest, definition, rfl, hparen, harguments, hdefinition⟩
  · rintro ⟨paren, rest, definition, rfl, hparen, harguments, hdefinition⟩
    simp [useArguments, hparen, harguments, hdefinition]

theorem useArguments_eq_none_iff {name : String} {tokens behind : List Token} :
    useArguments table name tokens = .ok (none, behind) ↔
      behind = tokens ∧ Bare table name tokens := by
  constructor
  · intro h
    cases tokens with
    | nil =>
      cases h
      exact ⟨rfl, fun _ _ heq => nomatch heq⟩
    | cons paren rest =>
      rw [useArguments] at h
      split at h
      case isFalse hparen =>
        cases h
        refine ⟨rfl, fun paren' rest' heq hparen' => ?_⟩
        cases heq
        exact absurd hparen' hparen
      case isTrue hparen =>
        split at h
        case h_2 => cases h
        case h_1 arguments behind' harguments =>
          split at h
          case isTrue => cases h
          case isFalse hundefined =>
            cases h
            refine ⟨rfl, fun paren' rest' heq _ => ?_⟩
            cases heq
            exact ⟨arguments, behind', harguments, by simpa using hundefined⟩
  · rintro ⟨rfl, hbare⟩
    cases behind with
    | nil => rfl
    | cons paren rest =>
      cases hparen : paren.isPunct .openParen with
      | false => simp [useArguments, hparen]
      | true =>
        obtain ⟨arguments, behind, harguments, hundefined⟩ := hbare paren rest rfl hparen
        simp [useArguments, hparen, harguments, hundefined]

/-- The arguments of a use are what the expansion takes for them. -/
theorem useAt_iff {mark next : Token} {tokens behind : List Token} {use : Use} :
    UseAt table (mark :: next :: tokens) use behind ↔
      mark.isPunct .question = true ∧ next.name? = some use.name ∧ use.line = mark.line ∧
        useArguments table use.name tokens = .ok (use.arguments, behind) := by
  constructor
  · rintro (⟨hmark, hname, hparen, harguments, hdefinition⟩ | ⟨hmark, hname, hbare⟩)
    · refine ⟨hmark, hname, rfl, useArguments_eq_some_iff.2 ?_⟩
      exact ⟨_, _, _, rfl, hparen, harguments, hdefinition⟩
    · exact ⟨hmark, hname, rfl, useArguments_eq_none_iff.2 ⟨rfl, hbare⟩⟩
  · obtain ⟨name, line, arguments⟩ := use
    rintro ⟨hmark, hname, rfl, h⟩
    cases arguments with
    | some arguments =>
      obtain ⟨paren, rest, definition, rfl, hparen, harguments, hdefinition⟩ :=
        useArguments_eq_some_iff.1 h
      exact .applied hmark hname hparen harguments hdefinition
    | none =>
      obtain ⟨rfl, hbare⟩ := useArguments_eq_none_iff.1 h
      exact .bare hmark hname hbare

theorem UseAt.exists_mark {tokens behind : List Token} {use : Use}
    (h : UseAt table tokens use behind) :
    ∃ mark next rest, tokens = mark :: next :: rest := by
  cases h with
  | applied => exact ⟨_, _, _, rfl⟩
  | bare => exact ⟨_, _, _, rfl⟩

theorem UseAt.length_lt {tokens behind : List Token} {use : Use}
    (h : UseAt table tokens use behind) : behind.length < tokens.length := by
  cases h with
  | applied _ _ _ harguments _ =>
    have hbehind := length_argumentsFrom harguments
    simp only [List.length_cons]
    omega
  | bare =>
    simp only [List.length_cons]
    omega

/-- Tokens start with at most one use. -/
theorem UseAt.unique {tokens behind behind' : List Token} {use use' : Use}
    (h : UseAt table tokens use behind) (h' : UseAt table tokens use' behind') :
    use = use' ∧ behind = behind' := by
  obtain ⟨mark, next, rest, rfl⟩ := h.exists_mark
  obtain ⟨-, hname, hline, harguments⟩ := useAt_iff.1 h
  obtain ⟨-, hname', hline', harguments'⟩ := useAt_iff.1 h'
  obtain ⟨name, line, arguments⟩ := use
  obtain ⟨name', line', arguments'⟩ := use'
  simp only at hname hline harguments hname' hline' harguments'
  rw [hname] at hname'
  cases hname'
  rw [harguments] at harguments'
  cases harguments'
  exact ⟨by rw [hline, hline'], rfl⟩

/-! ## One use -/

/-- What the expander of definitions does: it finds the derivations that nest less than `bound`
deep, and takes from the budget what it puts out. -/
def Derives (table : MacroTable) (context : FileContext) (bound : Nat) (inner : Expander) : Prop :=
  ∀ budget tokens out left, inner budget tokens = .ok (out, left) ↔
    ∃ depth < bound, Expands table context tokens out depth ∧ out.length + left = budget

theorem use_of_body? {inner : Expander} {budget : Nat} {use : Use} {body : List Token}
    (h : use.body? table = some body) :
    Expansion.use table context inner budget use.name use.line use.arguments =
      inner budget body := by
  obtain ⟨name, line, arguments⟩ := use
  cases arguments with
  | some arguments =>
    simp only [Use.body?, Use.arity] at h
    split at h
    case h_1 hdefined heq =>
      cases heq
      cases h
      simp [Expansion.use, hdefined]
    case h_2 heq => cases heq
    case h_3 => cases h
  | none =>
    simp only [Use.body?, Use.arity] at h
    split at h
    case h_1 heq => cases heq
    case h_2 hdefined _ =>
      cases h
      simp [Expansion.use, hdefined]
    case h_3 => cases h

theorem use_of_token? {inner : Expander} {budget : Nat} {use : Use} {token : Token}
    (h : use.token? table context = some token) :
    Expansion.use table context inner (budget + 1) use.name use.line use.arguments =
      .ok ([token], budget) := by
  obtain ⟨name, line, arguments⟩ := use
  cases arguments with
  | some arguments => simp [Use.token?] at h
  | none =>
    simp only [Use.token?, Use.arity] at h
    split at h
    case h_2 => cases h
    case h_1 hpredefined _ =>
      obtain ⟨lexeme, hlexeme, rfl⟩ := Option.map_eq_some_iff.1 h
      simp [Expansion.use, hpredefined, hlexeme]

theorem exists_of_use_eq_ok {inner : Expander} {budget left : Nat} {use : Use} {out : List Token}
    (h : Expansion.use table context inner budget use.name use.line use.arguments =
      .ok (out, left)) :
    (∃ body, use.body? table = some body ∧ inner budget body = .ok (out, left)) ∨
      ∃ token, use.token? table context = some token ∧ out = [token] ∧ left + 1 = budget := by
  obtain ⟨name, line, arguments⟩ := use
  cases arguments with
  | some arguments =>
    simp only [Expansion.use] at h
    split at h
    case h_1 params body hdefined => exact .inl ⟨_, by simp [Use.body?, Use.arity, hdefined], h⟩
    case h_2 => cases h
  | none =>
    simp only [Expansion.use] at h
    split at h
    case h_1 params body hdefined => exact .inl ⟨_, by simp [Use.body?, Use.arity, hdefined], h⟩
    case h_2 hpredefined =>
      split at h
      case h_1 => cases h
      case h_2 lexeme budget hlexeme =>
        cases h
        exact .inr ⟨_, by simp [Use.token?, Use.arity, hpredefined, hlexeme], rfl, rfl⟩
      case h_3 => cases h
    case h_3 => cases h

/-! ## Runs -/

theorem expandFrom_cons (inner : Expander) (rounds budget : Nat) (done rest : List Token)
    (token : Token) :
    expandFrom table context inner (rounds + 1) budget done (token :: rest) =
      if token.isPunct .question then
        match rest with
        | [] => .error ⟨token.line, .missingMacroName⟩
        | next :: behind =>
          match next.name? with
          | none => .error ⟨token.line, .missingMacroName⟩
          | some name => do
            let (arguments, behind) ← useArguments table name behind
            let (expanded, budget) ←
              Expansion.use table context inner budget name token.line arguments
            expandFrom table context inner rounds budget (expanded.reverseAux done) behind
      else
        match budget with
        | 0 => .error ⟨token.line, .tooLarge⟩
        | budget + 1 => expandFrom table context inner rounds budget (token :: done) rest :=
  rfl

theorem expandFrom_plain {inner : Expander} {token : Token} (h : token.isPunct .question = false)
    (rounds budget : Nat) (done rest : List Token) :
    expandFrom table context inner (rounds + 1) (budget + 1) done (token :: rest) =
      expandFrom table context inner rounds budget (token :: done) rest := by
  rw [expandFrom_cons, h, if_neg Bool.false_ne_true]

theorem expandFrom_use {inner : Expander} {mark next : Token} {tokens behind : List Token}
    {use : Use} (h : UseAt table (mark :: next :: tokens) use behind) (rounds budget : Nat)
    (done : List Token) :
    expandFrom table context inner (rounds + 1) budget done (mark :: next :: tokens) =
      (Expansion.use table context inner budget use.name use.line use.arguments).bind
        fun (expanded, budget) =>
          expandFrom table context inner rounds budget (expanded.reverseAux done) behind := by
  obtain ⟨hmark, hname, hline, harguments⟩ := useAt_iff.1 h
  rw [hline, expandFrom_cons]
  simp only [hmark, if_true, hname, harguments]
  rfl

/-- A mark that does not start a use is an error. -/
theorem exists_useAt {inner : Expander} {mark : Token} (hmark : mark.isPunct .question = true)
    {rounds budget : Nat} {done rest : List Token} {found : List Token × Nat}
    (h : expandFrom table context inner (rounds + 1) budget done (mark :: rest) = .ok found) :
    ∃ next tokens use behind, rest = next :: tokens ∧ UseAt table (mark :: rest) use behind := by
  rw [expandFrom_cons] at h
  simp only [hmark, if_true] at h
  split at h
  case h_1 => cases h
  case h_2 next tokens =>
    split at h
    case h_1 => cases h
    case h_2 name hname =>
      cases harguments : useArguments table name tokens with
      | error =>
        rw [harguments] at h
        cases h
      | ok pair =>
        exact ⟨next, tokens, ⟨name, mark.line, pair.1⟩, pair.2, rfl,
          useAt_iff.2 ⟨hmark, hname, rfl, harguments⟩⟩

theorem expandFrom_sound {inner : Expander} {bound : Nat}
    (hinner : Derives table context bound inner) {rounds budget left : Nat}
    {done tokens result : List Token} (hrounds : tokens.length ≤ rounds)
    (h : expandFrom table context inner rounds budget done tokens = .ok (result, left)) :
    ∃ out, ∃ depth ≤ bound, Expands table context tokens out depth ∧
      result = done.reverse ++ out ∧ out.length + left = budget := by
  induction rounds generalizing budget done tokens with
  | zero =>
    cases List.length_eq_zero_iff.1 (Nat.le_zero.1 hrounds)
    cases h
    exact ⟨[], 0, Nat.zero_le bound, .nil, by simp, by simp⟩
  | succ rounds ih =>
    cases tokens with
    | nil =>
      cases h
      exact ⟨[], 0, Nat.zero_le bound, .nil, by simp, by simp⟩
    | cons token rest =>
      rw [List.length_cons, Nat.add_le_add_iff_right] at hrounds
      cases hmark : token.isPunct .question with
      | false =>
        cases budget with
        | zero => simp [expandFrom_cons, hmark] at h
        | succ budget =>
          rw [expandFrom_plain hmark] at h
          obtain ⟨out, depth, hdepth, hexpands, rfl, hleft⟩ := ih hrounds h
          refine ⟨token :: out, depth, hdepth, .plain hmark hexpands, by simp, ?_⟩
          rw [List.length_cons]
          omega
      | true =>
        obtain ⟨next, tokens, use, behind, rfl, huse⟩ := exists_useAt hmark h
        rw [expandFrom_use huse] at h
        cases hused : Expansion.use table context inner budget use.name use.line use.arguments with
        | error => simp [hused, Except.bind] at h
        | ok found =>
          obtain ⟨expanded, budget'⟩ := found
          rw [hused, Except.bind] at h
          have hbehind := huse.length_lt
          simp only [List.length_cons] at hbehind hrounds
          obtain ⟨out, depth, hdepth, hexpands, rfl, hleft⟩ := ih (by omega) h
          rcases exists_of_use_eq_ok hused with ⟨body, hbody, hinnerOk⟩ | ⟨token', htoken, rfl, hone⟩
          · obtain ⟨depth', hdepth', hdefinition, hcharged⟩ := (hinner _ _ _ _).1 hinnerOk
            refine ⟨expanded ++ out, max (depth' + 1) depth, by omega,
              .definition huse hbody hdefinition hexpands, by simp, ?_⟩
            rw [List.length_append]
            omega
          · refine ⟨token' :: out, depth, hdepth, .predefined huse htoken hexpands, by simp, ?_⟩
            rw [List.length_cons]
            omega

theorem expandFrom_complete {inner : Expander} {bound : Nat}
    (hinner : Derives table context bound inner) {tokens out : List Token} {depth : Nat}
    (h : Expands table context tokens out depth) (hdepth : depth ≤ bound)
    {rounds budget left : Nat} (hrounds : tokens.length ≤ rounds)
    (hbudget : out.length + left = budget) (done : List Token) :
    expandFrom table context inner rounds budget done tokens = .ok (done.reverse ++ out, left) := by
  induction h generalizing rounds budget done with
  | nil =>
    cases hbudget
    rw [List.append_nil, List.length_nil, Nat.zero_add]
    cases rounds <;> rfl
  | plain hplain _ ih =>
    simp only [List.length_cons] at hrounds hbudget
    obtain ⟨rounds, rfl⟩ := Nat.exists_eq_add_one_of_ne_zero (Nat.ne_zero_of_lt hrounds)
    obtain ⟨budget, rfl⟩ : ∃ budget', budget = budget' + 1 := ⟨budget - 1, by omega⟩
    rw [expandFrom_plain hplain, ih hdepth (by omega) (by omega)]
    simp
  | definition huse hbody hdefinition _ _ ih =>
    obtain ⟨mark, next, tokens, rfl⟩ := huse.exists_mark
    have hbehind := huse.length_lt
    rw [List.length_append] at hbudget
    obtain ⟨rounds, rfl⟩ := Nat.exists_eq_add_one_of_ne_zero (Nat.ne_zero_of_lt hrounds)
    have hinnerOk := (hinner budget _ _ (budget - _)).2
      ⟨_, Nat.lt_of_lt_of_le (Nat.lt_of_succ_le (Nat.le_max_left _ _)) hdepth, hdefinition,
        Nat.add_sub_cancel' (by omega)⟩
    rw [expandFrom_use huse, use_of_body? hbody, hinnerOk, Except.bind]
    simp only
    rw [ih (by omega) (by omega) (by omega)]
    simp
  | predefined huse htoken _ ih =>
    obtain ⟨mark, next, tokens, rfl⟩ := huse.exists_mark
    have hbehind := huse.length_lt
    rw [List.length_cons] at hbudget
    obtain ⟨rounds, rfl⟩ := Nat.exists_eq_add_one_of_ne_zero (Nat.ne_zero_of_lt hrounds)
    obtain ⟨budget, rfl⟩ : ∃ budget', budget = budget' + 1 := ⟨budget - 1, by omega⟩
    rw [expandFrom_use huse, use_of_token? htoken, Except.bind]
    simp only
    rw [ih hdepth (by omega) (by omega)]
    simp

theorem derives_expandWithin (levels : Nat) :
    Derives table context levels (expandWithin table context levels) := by
  induction levels with
  | zero =>
    intro budget tokens out left
    constructor
    · intro h
      cases h
    · rintro ⟨depth, hdepth, -⟩
      cases hdepth
  | succ levels ih =>
    intro budget tokens out left
    rw [expandWithin]
    constructor
    · intro h
      obtain ⟨out', depth, hdepth, hexpands, rfl, hleft⟩ := expandFrom_sound ih (Nat.le_refl _) h
      exact ⟨depth, Nat.lt_succ_of_le hdepth, hexpands, hleft⟩
    · rintro ⟨depth, hdepth, hexpands, hleft⟩
      exact expandFrom_complete ih hexpands (Nat.le_of_lt_succ hdepth) (Nat.le_refl _) hleft []

/-! ## Results -/

theorem UseAt.isPunct_question {mark : Token} {rest behind : List Token} {use : Use}
    (h : UseAt table (mark :: rest) use behind) : mark.isPunct .question = true := by
  cases h <;> assumption

/-- No use is both defined and predefined. -/
theorem Use.token?_eq_none {use : Use} {body : List Token} (h : use.body? table = some body) :
    use.token? table context = none := by
  unfold Use.body? at h
  unfold Use.token?
  split at h
  case h_1 hdefined _ => simp [hdefined]
  case h_2 hdefined _ => simp [hdefined]
  case h_3 => cases h

/-- Tokens have at most one expansion. -/
theorem Expands.unique {tokens out out' : List Token} {depth depth' : Nat}
    (h : Expands table context tokens out depth) (h' : Expands table context tokens out' depth') :
    out = out' ∧ depth = depth' := by
  induction h generalizing out' depth' with
  | nil =>
    cases h' with
    | nil => exact ⟨rfl, rfl⟩
    | definition huse | predefined huse => cases huse
  | plain hplain _ ih =>
    cases h' with
    | plain _ hrest =>
      obtain ⟨rfl, rfl⟩ := ih hrest
      exact ⟨rfl, rfl⟩
    | definition huse | predefined huse =>
      rw [huse.isPunct_question] at hplain
      cases hplain
  | definition huse hbody _ _ ihBody ih =>
    cases h' with
    | nil => cases huse
    | plain hplain =>
      rw [huse.isPunct_question] at hplain
      cases hplain
    | definition huse' hbody' hinner hbehind =>
      obtain ⟨rfl, rfl⟩ := huse.unique huse'
      rw [hbody] at hbody'
      cases hbody'
      obtain ⟨rfl, rfl⟩ := ihBody hinner
      obtain ⟨rfl, rfl⟩ := ih hbehind
      exact ⟨rfl, rfl⟩
    | predefined huse' htoken =>
      obtain ⟨rfl, rfl⟩ := huse.unique huse'
      rw [Use.token?_eq_none hbody] at htoken
      cases htoken
  | predefined huse htoken _ ih =>
    cases h' with
    | nil => cases huse
    | plain hplain =>
      rw [huse.isPunct_question] at hplain
      cases hplain
    | definition huse' hbody =>
      obtain ⟨rfl, rfl⟩ := huse.unique huse'
      rw [Use.token?_eq_none hbody] at htoken
      cases htoken
    | predefined huse' htoken' hbehind =>
      obtain ⟨rfl, rfl⟩ := huse.unique huse'
      rw [htoken] at htoken'
      cases htoken'
      obtain ⟨rfl, rfl⟩ := ih hbehind
      exact ⟨rfl, rfl⟩

theorem isPunct_of_predefined? {name : String} {line : Nat} {lexeme : Lexeme}
    (h : context.predefined? name line = some lexeme) (mark : Punct) :
    Token.isPunct mark ⟨lexeme, line⟩ = false := by
  unfold FileContext.predefined? at h
  split at h
  case h_6 => cases h
  all_goals
    cases h
    rfl

/-- No mark of a use is left over. -/
theorem Expands.isPunct_question {tokens out : List Token} {depth : Nat}
    (h : Expands table context tokens out depth) :
    ∀ token ∈ out, token.isPunct .question = false := by
  induction h with
  | nil =>
    intro token htoken
    cases htoken
  | plain hplain _ ih =>
    intro token htoken
    rcases List.mem_cons.1 htoken with rfl | htoken
    · exact hplain
    · exact ih token htoken
  | definition _ _ _ _ ihBody ih =>
    intro token htoken
    rcases List.mem_append.1 htoken with htoken | htoken
    · exact ihBody token htoken
    · exact ih token htoken
  | predefined _ hvalue _ ih =>
    intro token htoken
    rcases List.mem_cons.1 htoken with rfl | htoken
    · unfold Use.token? at hvalue
      split at hvalue
      case h_2 => cases hvalue
      case h_1 =>
        obtain ⟨lexeme, hlexeme, rfl⟩ := Option.map_eq_some_iff.1 hvalue
        exact isPunct_of_predefined? hlexeme .question
    · exact ih token htoken

/-! ## Uses that enter themselves -/

/-- `Reaches table tokens use` says that expanding `tokens` comes to `use`, and to no other use
around it. -/
inductive Reaches (table : MacroTable) : List Token → Use → Prop where
  | here {tokens behind : List Token} {use : Use} :
      UseAt table tokens use behind → Reaches table tokens use
  | plain {token : Token} {rest : List Token} {use : Use} :
      token.isPunct .question = false → Reaches table rest use → Reaches table (token :: rest) use
  | behind {tokens behind : List Token} {first use : Use} :
      UseAt table tokens first behind → Reaches table behind use → Reaches table tokens use

/-- The tokens that a use stands for hold another use. -/
def Enters (table : MacroTable) (use inner : Use) : Prop :=
  ∃ body, use.body? table = some body ∧ Reaches table body inner

/-- The expansion of each of the uses must enter one of them again. -/
def Reenters (table : MacroTable) (uses : Use → Prop) : Prop :=
  ∀ use, uses use → ∃ inner, uses inner ∧ Relation.TransGen (Enters table) use inner

/-- The use stands for tokens that expand through definitions that nest `depth` deep. -/
def Ends (table : MacroTable) (context : FileContext) (use : Use) (depth : Nat) : Prop :=
  ∃ body out, use.body? table = some body ∧ Expands table context body out depth

theorem Expands.ends {tokens out body : List Token} {use : Use} {depth : Nat}
    (h : Expands table context tokens out depth) (hreaches : Reaches table tokens use)
    (hbody : use.body? table = some body) : ∃ depth' < depth, Ends table context use depth' := by
  induction h with
  | nil =>
    cases hreaches with
    | here huse | behind huse => cases huse
  | plain hplain _ ih =>
    cases hreaches with
    | plain _ hrest => exact ih hrest
    | here huse | behind huse =>
      rw [huse.isPunct_question] at hplain
      cases hplain
  | @definition _ _ body' inner _ _ depth depth' huse hbody' hinner _ _ ih =>
    cases hreaches with
    | here huse' =>
      obtain ⟨rfl, rfl⟩ := huse.unique huse'
      exact ⟨depth, by omega, body', inner, hbody', hinner⟩
    | plain hplain =>
      rw [huse.isPunct_question] at hplain
      cases hplain
    | behind huse' hbehind =>
      obtain ⟨rfl, rfl⟩ := huse.unique huse'
      obtain ⟨depth'', hlt, hends⟩ := ih hbehind
      exact ⟨depth'', by omega, hends⟩
  | predefined huse htoken _ ih =>
    cases hreaches with
    | here huse' =>
      obtain ⟨rfl, rfl⟩ := huse.unique huse'
      rw [Use.token?_eq_none hbody] at htoken
      cases htoken
    | plain hplain =>
      rw [huse.isPunct_question] at hplain
      cases hplain
    | behind huse' hbehind =>
      obtain ⟨rfl, rfl⟩ := huse.unique huse'
      exact ih hbehind

theorem Ends.of_enters {use inner : Use} {body : List Token} {depth : Nat}
    (h : Ends table context use depth) (henters : Enters table use inner)
    (hbody : inner.body? table = some body) :
    ∃ depth' < depth, Ends table context inner depth' := by
  obtain ⟨tokens, out, htokens, hexpands⟩ := h
  obtain ⟨tokens', htokens', hreaches⟩ := henters
  rw [htokens] at htokens'
  cases htokens'
  exact hexpands.ends hreaches hbody

theorem Ends.of_transGen {use inner : Use} {body : List Token} {depth : Nat}
    (h : Ends table context use depth) (henters : Relation.TransGen (Enters table) use inner)
    (hbody : inner.body? table = some body) :
    ∃ depth' < depth, Ends table context inner depth' := by
  induction henters generalizing body with
  | single henters => exact h.of_enters henters hbody
  | tail _ henters ih =>
    obtain ⟨middle, hmiddle, -⟩ := id henters
    obtain ⟨depth', hlt, hends⟩ := ih hmiddle
    obtain ⟨depth'', hlt', hends'⟩ := hends.of_enters henters hbody
    exact ⟨depth'', Nat.lt_trans hlt' hlt, hends'⟩

theorem Reenters.exists_body {uses : Use → Prop} (h : Reenters table uses) {use : Use}
    (huse : uses use) : ∃ body, use.body? table = some body := by
  obtain ⟨inner, -, henters⟩ := h use huse
  obtain ⟨next, ⟨body, hbody, -⟩, -⟩ := Relation.TransGen.head'_iff.1 henters
  exact ⟨body, hbody⟩

/-- Definitions would nest without end. -/
theorem Reenters.not_ends {uses : Use → Prop} (h : Reenters table uses) (depth : Nat) :
    ∀ use, uses use → ¬ Ends table context use depth := by
  induction depth using Nat.strongRecOn with
  | _ depth ih =>
    intro use huse hends
    obtain ⟨inner, hinner, henters⟩ := h use huse
    obtain ⟨body, hbody⟩ := h.exists_body hinner
    obtain ⟨depth', hlt, hends'⟩ := hends.of_transGen henters hbody
    exact ih depth' hlt inner hinner hends'

/-! ## Limits -/

theorem expand_eq_ok_iff {tokens out : List Token} :
    expand table context tokens = .ok out ↔
      ∃ depth ≤ 32, Expands table context tokens out depth ∧ out.length ≤ 100000 := by
  have hderives := @derives_expandWithin table context (maxDepth + 1)
  constructor
  · intro h
    cases hrun : expandWithin table context (maxDepth + 1) maxTokens tokens with
    | error =>
      rw [expand, hrun] at h
      cases h
    | ok found =>
      rw [expand, hrun] at h
      cases h
      obtain ⟨depth, hdepth, hexpands, hleft⟩ := (hderives _ _ _ _).1 hrun
      exact ⟨depth, Nat.le_of_lt_succ hdepth, hexpands, Nat.le.intro hleft⟩
  · rintro ⟨depth, hdepth, hexpands, hlength⟩
    have hrun := (hderives maxTokens tokens out (maxTokens - out.length)).2
      ⟨depth, Nat.lt_succ_of_le hdepth, hexpands, Nat.add_sub_cancel' hlength⟩
    rw [expand, hrun]
    rfl

/-- Expansion within the limits is expansion without them, where that ends in time: it has the same
result whenever it has one, it fails at every use that must enter itself, and it leaves no use
behind. -/
theorem expand_refines (table : MacroTable) (context : FileContext) (tokens : List Token) :
    (∀ out, expand table context tokens = .ok out ↔
      ∃ depth ≤ 32, Expands table context tokens out depth ∧ out.length ≤ 100000) ∧
    (∀ out out' depth, expand table context tokens = .ok out →
      Expands table context tokens out' depth → out' = out) ∧
    (∀ uses, Reenters table uses → ∀ use, uses use → Reaches table tokens use →
      ∃ error, expand table context tokens = .error error) ∧
    (∀ out, expand table context tokens = .ok out →
      ∀ token ∈ out, token.isPunct .question = false) := by
  refine ⟨fun out => expand_eq_ok_iff, fun out out' depth h h' => ?_,
    fun uses hreenters use huse hreaches => ?_, fun out h => ?_⟩
  · obtain ⟨_, -, hexpands, -⟩ := expand_eq_ok_iff.1 h
    exact (h'.unique hexpands).1
  · cases h : expand table context tokens with
    | error error => exact ⟨error, rfl⟩
    | ok out =>
      obtain ⟨depth, -, hexpands, -⟩ := expand_eq_ok_iff.1 h
      obtain ⟨body, hbody⟩ := hreenters.exists_body huse
      obtain ⟨depth', -, hends⟩ := hexpands.ends hreaches hbody
      exact absurd hends (hreenters.not_ends depth' use huse)
  · obtain ⟨_, -, hexpands, -⟩ := expand_eq_ok_iff.1 h
    exact hexpands.isPunct_question

end

def loopTokens : List Token :=
  [⟨.punct .question, 1⟩, ⟨.var "LOOP", 1⟩]

/-- A macro that stands for a use of itself. -/
def loopTable : MacroTable :=
  MacroTable.empty.define "LOOP" .noArgs (.defined [] loopTokens)

theorem expand_loop :
    ∃ error, expand loopTable ⟨"test.hrl", "test"⟩ loopTokens = .error error := by
  have huse : UseAt loopTable loopTokens ⟨"LOOP", 1, none⟩ [] :=
    .bare rfl rfl fun _ _ heq => nomatch heq
  have henters : Enters loopTable ⟨"LOOP", 1, none⟩ ⟨"LOOP", 1, none⟩ :=
    ⟨loopTokens, by decide, .here huse⟩
  obtain ⟨-, -, hfails, -⟩ := expand_refines loopTable ⟨"test.hrl", "test"⟩ loopTokens
  refine hfails (· = ⟨"LOOP", 1, none⟩) ?_ _ rfl (.here huse)
  rintro use rfl
  exact ⟨_, rfl, .single henters⟩

end HeaderForms.Expansion
