-- SUMMARY: What parsers read: the lexemes that a parser goes over, and how it goes on behind them.
import HeaderForms.Token.Parser

/-!
# What parsers read

A parser goes over lexemes when it takes the tokens that hold them and goes on as another parser on
the tokens behind. Whether it stops there can depend on the next lexeme, so the condition on that
lexeme is part of the statement. The rules follow a parser along its steps: the lexemes ahead are
given to its first step, and those that the step leaves to the rest.
-/

namespace HeaderForms.Parser

variable {α β : Type}

/-- In front of a lexeme that `follow` allows, or of the end, the parser goes over the lexemes and
on as `onward`. -/
def Leads (parser : Parser α) (lexemes : List Lexeme) (follow : Option Lexeme → Prop)
    (onward : Parser α) : Prop :=
  ∀ ⦃tokens rest : List Token⦄, tokens.map (·.lexeme) = lexemes →
    follow (rest.head?.map (·.lexeme)) → parser (tokens ++ rest) = onward rest

/-- In front of a lexeme that `follow` allows, or of the end, the parser reads the lexemes as the
value. -/
abbrev Reads (parser : Parser α) (lexemes : List Lexeme) (follow : Option Lexeme → Prop)
    (value : α) : Prop :=
  Leads parser lexemes follow (pure value)

variable {parser onward : Parser α} {next : β → Parser α} {lexemes : List Lexeme}
  {follow : Option Lexeme → Prop} {lexeme : Lexeme}

theorem head?_append {tokens rest : List Token} (h : tokens.map (·.lexeme) = lexemes) :
    (tokens ++ rest).head?.map (·.lexeme) = lexemes.head?.or (rest.head?.map (·.lexeme)) := by
  subst h
  cases tokens with
  | nil => rfl
  | cons token tokens => rfl

/-! ## Composition -/

theorem Leads.refl : Leads parser [] follow parser := by
  intro tokens rest htokens _
  rw [List.map_eq_nil_iff.1 htokens, List.nil_append]

theorem Reads.pure {value : α} : Reads (pure value) [] follow value :=
  Leads.refl

theorem Leads.mono {follow' : Option Lexeme → Prop} (h : Leads parser lexemes follow onward)
    (hfollow : ∀ ahead, follow' ahead → follow ahead) : Leads parser lexemes follow' onward :=
  fun _ _ htokens hnext => h htokens (hfollow _ hnext)

theorem Reads.mono {value : α} {follow' : Option Lexeme → Prop}
    (h : Reads parser lexemes follow value) (hfollow : ∀ ahead, follow' ahead → follow ahead) :
    Reads parser lexemes follow' value :=
  Leads.mono h hfollow

theorem Leads.trans {between : Parser α} {lexemes' : List Lexeme} {follow' : Option Lexeme → Prop}
    (h : Leads parser lexemes follow between) (h' : Leads between lexemes' follow' onward)
    (hfollow : ∀ ahead, follow' ahead → follow (lexemes'.head?.or ahead)) :
    Leads parser (lexemes ++ lexemes') follow' onward := by
  intro tokens rest htokens hnext
  obtain ⟨first, second, rfl, hfirst, hsecond⟩ := List.map_eq_append_iff.1 htokens
  have hbetween : follow ((second ++ rest).head?.map (·.lexeme)) := by
    rw [head?_append hsecond]
    exact hfollow _ hnext
  rw [List.append_assoc, h hfirst hbetween, h' hsecond hnext]

theorem Leads.bind {first onward' : Parser β} (h : Leads first lexemes follow onward') :
    Leads (first >>= next) lexemes follow (onward' >>= next) := by
  intro tokens rest htokens hnext
  simp only [Bind.bind, StateT.bind, h htokens hnext]

/-- What a parser reads, the next step has, and it goes over what is left. -/
theorem Reads.bind {first : Parser β} {value : β} {lexemes' : List Lexeme}
    {follow' : Option Lexeme → Prop} (h : Reads first lexemes follow value)
    (hnext : Leads (next value) lexemes' follow' onward)
    (hfollow : ∀ ahead, follow' ahead → follow (lexemes'.head?.or ahead)) :
    Leads (first >>= next) (lexemes ++ lexemes') follow' onward :=
  (Leads.bind h).trans hnext hfollow

theorem Reads.bind_pure {first : Parser β} {value : β} {f : β → α}
    (h : Reads first lexemes follow value) :
    Reads (first >>= fun value => Pure.pure (f value)) lexemes follow (f value) :=
  Leads.bind h

theorem Reads.map {first : Parser β} {value : β} {f : β → α}
    (h : Reads first lexemes follow value) : Reads (f <$> first) lexemes follow (f value) := by
  rw [← bind_pure_comp]
  exact h.bind_pure

/-! ## Single tokens -/

/-- A step that takes the next token and goes on is known by what it does with each token. -/
theorem Leads.cons {behind : Parser α} (h : Leads behind lexemes follow onward)
    (hstep : ∀ (token : Token) (tokens : List Token), token.lexeme = lexeme →
      parser (token :: tokens) = behind tokens) :
    Leads parser (lexeme :: lexemes) follow onward := by
  intro tokens rest htokens hnext
  obtain ⟨token, tokens, rfl, hlexeme, hbehind⟩ := List.map_eq_cons_iff.1 htokens
  rw [List.cons_append, hstep token _ hlexeme, h hbehind hnext]

/-- A step that takes no token is known by what it does in front of the lexemes. -/
theorem Leads.stay {same : Parser α} (h : Leads same lexemes follow onward)
    (hstep : ∀ tokens : List Token,
      (∃ ahead, follow ahead ∧ tokens.head?.map (·.lexeme) = lexemes.head?.or ahead) →
      parser tokens = same tokens) :
    Leads parser lexemes follow onward := by
  intro tokens rest htokens hnext
  rw [hstep _ ⟨_, hnext, head?_append htokens⟩, h htokens hnext]

theorem leads_peek {next : Option Lexeme → Parser α}
    (h : Leads (next (some lexeme)) (lexeme :: lexemes) follow onward) :
    Leads (peek >>= next) (lexeme :: lexemes) follow onward := by
  refine h.stay fun tokens ⟨ahead, _, hhead⟩ => ?_
  change next (tokens.head?.map (·.lexeme)) tokens = _
  rw [hhead]
  rfl

theorem leads_peekTwo {second : Lexeme} {next : Option Lexeme × Option Lexeme → Parser α}
    (h : Leads (next (some lexeme, some second)) (lexeme :: second :: lexemes) follow onward) :
    Leads (peekTwo >>= next) (lexeme :: second :: lexemes) follow onward := by
  intro tokens rest htokens hnext
  rw [← h htokens hnext]
  obtain ⟨token, behind, rfl, rfl, hbehind⟩ := List.map_eq_cons_iff.1 htokens
  obtain ⟨token', tokens, rfl, rfl, -⟩ := List.map_eq_cons_iff.1 hbehind
  rfl

/-- The first of the two lexemes ahead can be enough to go on. -/
theorem leads_peekTwo_first {next : Option Lexeme × Option Lexeme → Parser α}
    (h : ∀ second, Leads (next (some lexeme, second)) (lexeme :: lexemes) follow onward) :
    Leads (peekTwo >>= next) (lexeme :: lexemes) follow onward := by
  intro tokens rest htokens hnext
  have hgo := h ((tokens ++ rest).tail.head?.map (·.lexeme)) htokens hnext
  rw [← hgo]
  obtain ⟨token, behind, rfl, rfl, -⟩ := List.map_eq_cons_iff.1 htokens
  rfl

/-- Where the two lexemes ahead do not matter, neither does looking at them. -/
theorem leads_peekTwo_eq {same : Parser α} {next : Option Lexeme × Option Lexeme → Parser α}
    (hsame : ∀ ahead, follow ahead → next (some lexeme, lexemes.head?.or ahead) = same)
    (h : Leads same (lexeme :: lexemes) follow onward) :
    Leads (peekTwo >>= next) (lexeme :: lexemes) follow onward := by
  intro tokens rest htokens hnext
  rw [← h htokens hnext]
  obtain ⟨token, behind, rfl, rfl, hbehind⟩ := List.map_eq_cons_iff.1 htokens
  rw [← hsame _ hnext, ← head?_append hbehind]
  rfl

theorem leads_skip {next : Unit → Parser α} (h : Leads (next ()) lexemes follow onward) :
    Leads (skip 1 >>= next) (lexeme :: lexemes) follow onward :=
  h.cons fun _ _ _ => rfl

theorem leads_skipTwo {second : Lexeme} {next : Unit → Parser α}
    (h : Leads (next ()) lexemes follow onward) :
    Leads (skip 2 >>= next) (lexeme :: second :: lexemes) follow onward :=
  (leads_skip h).cons fun _ _ _ => rfl

theorem leads_eat {next : Bool → Parser α} (h : Leads (next true) lexemes follow onward) :
    Leads (eat lexeme >>= next) (lexeme :: lexemes) follow onward := by
  refine h.cons fun token tokens hlexeme => ?_
  simp only [Bind.bind, StateT.bind, eat, if_pos hlexeme]
  rfl

theorem leads_eat_ne {next : Bool → Parser α}
    (hne : ∀ ahead, follow ahead → lexemes.head?.or ahead ≠ some lexeme)
    (h : Leads (next false) lexemes follow onward) :
    Leads (eat lexeme >>= next) lexemes follow onward := by
  refine h.stay fun tokens ⟨ahead, hahead, hhead⟩ => ?_
  cases tokens with
  | nil => rfl
  | cons token tokens =>
    have htoken : token.lexeme ≠ lexeme := fun heq => hne ahead hahead (by rw [← hhead, ← heq]; rfl)
    simp only [Bind.bind, StateT.bind, eat, if_neg htoken]
    rfl

theorem leads_eat_cons_ne {first : Lexeme} {next : Bool → Parser α} (hne : first ≠ lexeme)
    (h : Leads (next false) (first :: lexemes) follow onward) :
    Leads (eat lexeme >>= next) (first :: lexemes) follow onward :=
  leads_eat_ne (fun _ _ heq => hne (Option.some.inj heq)) h

theorem leads_take? {select : Lexeme → Option β} {value : β} {next : Option β → Parser α}
    (hselect : select lexeme = some value) (h : Leads (next (some value)) lexemes follow onward) :
    Leads (take? select >>= next) (lexeme :: lexemes) follow onward := by
  refine h.cons fun token tokens hlexeme => ?_
  simp only [Bind.bind, StateT.bind, take?, hlexeme, hselect]
  rfl

theorem leads_take?_none {select : Lexeme → Option β} {next : Option β → Parser α}
    (hselect : ∀ ahead, follow ahead → ∀ lexeme ∈ lexemes.head?.or ahead, select lexeme = none)
    (h : Leads (next none) lexemes follow onward) :
    Leads (take? select >>= next) lexemes follow onward := by
  refine h.stay fun tokens ⟨ahead, hahead, hhead⟩ => ?_
  cases tokens with
  | nil => rfl
  | cons token tokens =>
    have htoken : select token.lexeme = none := hselect ahead hahead _ hhead.symm
    simp only [Bind.bind, StateT.bind, take?, htoken]
    rfl

theorem leads_take {wanted : Expected} {select : Lexeme → Option β} {value : β}
    (hselect : select lexeme = some value) (h : Leads (next value) lexemes follow onward) :
    Leads (take wanted select >>= next) (lexeme :: lexemes) follow onward := by
  rw [take, bind_assoc]
  exact leads_take? hselect h

theorem leads_takeAny {fault : SourceFault} {select : Lexeme → Option β} {value : β}
    (hselect : select lexeme = some value) (h : Leads (next value) lexemes follow onward) :
    Leads (takeAny fault select >>= next) (lexeme :: lexemes) follow onward := by
  refine h.cons fun token tokens hlexeme => ?_
  simp only [Bind.bind, StateT.bind, takeAny, hlexeme, hselect]
  rfl

theorem leads_atPunct {mark : Punct} {next : Bool → Parser α}
    (h : Leads (next true) (.punct mark :: lexemes) follow onward) :
    Leads (atPunct mark >>= next) (.punct mark :: lexemes) follow onward := by
  refine h.stay fun tokens ⟨ahead, _, hhead⟩ => ?_
  cases tokens with
  | nil => cases hhead
  | cons token tokens =>
    have htoken : token.lexeme = .punct mark := Option.some.inj hhead
    simp only [Bind.bind, StateT.bind, atPunct, List.head?_cons, Option.any_some, htoken, decide_true]
    rfl

theorem leads_atPunct_ne {mark : Punct} {next : Bool → Parser α}
    (hne : ∀ ahead, follow ahead → lexemes.head?.or ahead ≠ some (.punct mark))
    (h : Leads (next false) lexemes follow onward) :
    Leads (atPunct mark >>= next) lexemes follow onward := by
  refine h.stay fun tokens ⟨ahead, hahead, hhead⟩ => ?_
  cases tokens with
  | nil => rfl
  | cons token tokens =>
    have htoken : token.lexeme ≠ .punct mark :=
      fun heq => hne ahead hahead (by rw [← hhead, ← heq]; rfl)
    simp only [Bind.bind, StateT.bind, atPunct, List.head?_cons, Option.any_some, htoken,
      decide_false]
    rfl

theorem leads_atPunct_cons_ne {first : Lexeme} {mark : Punct} {next : Bool → Parser α}
    (hne : first ≠ .punct mark) (h : Leads (next false) (first :: lexemes) follow onward) :
    Leads (atPunct mark >>= next) (first :: lexemes) follow onward :=
  leads_atPunct_ne (fun _ _ heq => hne (Option.some.inj heq)) h

theorem leads_expectPunct {mark : Punct} {next : Unit → Parser α}
    (h : Leads (next ()) lexemes follow onward) :
    Leads (expectPunct mark >>= next) (.punct mark :: lexemes) follow onward := by
  rw [expectPunct, bind_assoc]
  exact leads_eat h

theorem leads_expectKeyword {word : Keyword} {next : Unit → Parser α}
    (h : Leads (next ()) lexemes follow onward) :
    Leads (expectKeyword word >>= next) (.keyword word :: lexemes) follow onward := by
  rw [expectKeyword, bind_assoc]
  exact leads_eat h

theorem leads_expectAtom {name : String} {next : String → Parser α}
    (h : Leads (next name) lexemes follow onward) :
    Leads (expectAtom >>= next) (.atom name :: lexemes) follow onward :=
  leads_take rfl h

/-! ## Repetition -/

variable {item : Parser β} {spell : β → List Lexeme} {itemFollow : Option Lexeme → Prop}

theorem exists_intercalate_cons (separator first : Lexeme) (lexemes : List Lexeme)
    (others : List (List Lexeme)) :
    ∃ more, [separator].intercalate ((first :: lexemes) :: others) = first :: more := by
  cases others with
  | nil => exact ⟨lexemes, List.intercalate_singleton⟩
  | cons other others => exact ⟨_, List.intercalate_cons_cons⟩

theorem reads_separatedFrom {separator : Punct} {items : List β}
    (hitems : ∀ value ∈ items, Reads item (spell value) itemFollow value) (hne : items ≠ [])
    {limit : Nat} (hlimit : items.length ≤ limit) (hseparator : itemFollow (some (.punct separator)))
    (hfollow : ∀ ahead, follow ahead → itemFollow ahead ∧ ahead ≠ some (.punct separator))
    (found : List β) :
    Reads (separatedFrom separator item limit found)
      ([.punct separator].intercalate (items.map spell)) follow (found.reverse ++ items) := by
  induction items generalizing limit found with
  | nil => exact absurd rfl hne
  | cons value items ih =>
    obtain _ | limit := limit
    · exact absurd hlimit (by simp)
    have hvalue := hitems value List.mem_cons_self
    rw [separatedFrom]
    cases items with
    | nil =>
      rw [List.map_singleton, List.intercalate_singleton, ← List.append_nil (spell value)]
      refine hvalue.bind (leads_eat_ne ?_ ?_) ?_
      · exact fun ahead hahead => (hfollow ahead hahead).2
      · simpa using Reads.pure
      · exact fun ahead hahead => (hfollow ahead hahead).1
    | cons value' items =>
      rw [List.map_cons, List.map_cons, List.intercalate_cons_cons, ← List.map_cons,
        List.append_assoc, List.singleton_append]
      refine hvalue.bind (leads_eat ?_) fun _ _ => hseparator
      have hmore := ih (fun other hother => hitems other (List.mem_cons_of_mem value hother))
        (List.cons_ne_nil value' items) (Nat.le_of_succ_le_succ hlimit) (value :: found)
      simpa using hmore

theorem reads_separated {separator : Punct} {items : List β}
    (hitems : ∀ value ∈ items, Reads item (spell value) itemFollow value) (hne : items ≠ [])
    {limit : Nat} (hlimit : items.length ≤ limit) (hseparator : itemFollow (some (.punct separator)))
    (hfollow : ∀ ahead, follow ahead → itemFollow ahead ∧ ahead ≠ some (.punct separator)) :
    Reads (separated limit separator item)
      ([.punct separator].intercalate (items.map spell)) follow items :=
  reads_separatedFrom hitems hne hlimit hseparator hfollow []

/-- An item in brackets is followed by a comma or by the closing bracket, with which no item
begins. -/
theorem reads_delimited {close : Punct} (hclose : close ≠ .comma) {items : List β}
    (hitems : ∀ value ∈ items, Reads item (spell value)
      (fun ahead => ahead = some (.punct .comma) ∨ ahead = some (.punct close)) value)
    (hheads : ∀ value ∈ items, ∃ lexeme behind, spell value = lexeme :: behind ∧
      lexeme ≠ .punct close)
    {limit : Nat} (hlimit : items.length ≤ limit) :
    Reads (delimited limit close item)
      ([.punct .comma].intercalate (items.map spell) ++ [.punct close]) follow items := by
  rw [delimited]
  cases items with
  | nil => exact leads_eat Reads.pure
  | cons value items =>
    refine leads_eat_ne (fun ahead _ => ?_) ?_
    · obtain ⟨lexeme, behind, hspell, hne⟩ := hheads value List.mem_cons_self
      obtain ⟨more, hmore⟩ := exists_intercalate_cons (.punct .comma) lexeme behind (items.map spell)
      rw [List.map_cons, hspell, hmore]
      exact fun heq => hne (Option.some.inj heq)
    · have hclosed : Reads (separated limit .comma item)
          ([.punct .comma].intercalate ((value :: items).map spell))
          (fun ahead => ahead = some (.punct close)) (value :: items) := by
        refine reads_separated hitems (List.cons_ne_nil value items) hlimit (.inl rfl) ?_
        rintro ahead rfl
        exact ⟨.inr rfl, fun heq => hclose (by cases heq; rfl)⟩
      exact hclosed.bind (leads_expectPunct Reads.pure) fun _ _ => rfl

end HeaderForms.Parser
