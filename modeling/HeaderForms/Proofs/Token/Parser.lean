-- SUMMARY: What parsers keep of the tokens: what they take, and a property of the values made of it.
import HeaderForms.Token.Parser

/-!
# What parsers keep

A parser takes its value from the tokens it reads and leaves the tokens behind it as they are. So
what holds of every token holds of the tokens that are left, and the value of a parser is described
rule by rule along its steps. No parser takes an integer that is too large for a number: where one
stands in its way, it fails.
-/

namespace HeaderForms

/-- The lexeme is no integer that is too large for a number. -/
def Lexeme.Fits (lexeme : Lexeme) : Prop :=
  ∀ text, lexeme ≠ .bigInteger text

namespace Parser

variable {α β : Type}

theorem bind_eq_ok {parser : Parser α} {next : α → Parser β} {tokens rest : List Token}
    {value : β} :
    (parser >>= next) tokens = .ok (value, rest) ↔
      ∃ first behind, parser tokens = .ok (first, behind) ∧ next first behind = .ok (value, rest) := by
  simp only [bind, StateT.bind]
  cases parser tokens with
  | error failure => simp [Except.bind]
  | ok found => simp [Except.bind, Prod.ext_iff, and_assoc]

theorem map_eq_ok {parser : Parser α} {f : α → β} {tokens rest : List Token} {value : β} :
    (f <$> parser) tokens = .ok (value, rest) ↔
      ∃ first, parser tokens = .ok (first, rest) ∧ f first = value := by
  rw [← bind_pure_comp, bind_eq_ok]
  constructor
  · rintro ⟨first, behind, hfirst, hdone⟩
    cases hdone
    exact ⟨first, hfirst, rfl⟩
  · rintro ⟨first, hfirst, rfl⟩
    exact ⟨first, rest, hfirst, rfl⟩

theorem ok_of_parse {parser : Parser α} {tokens : List Token} {value : α}
    (h : parser.parse tokens = .ok value) : ∃ rest, parser tokens = .ok (value, rest) := by
  unfold parse at h
  split at h
  case h_1 found rest hok =>
    cases h
    exact ⟨rest, hok⟩
  case h_2 => cases h

/-! ## Steps read back -/

section Steps

variable {lexeme : Lexeme} {tokens rest : List Token}

theorem exists_of_eat (h : eat lexeme tokens = .ok (true, rest)) :
    ∃ line, tokens = ⟨lexeme, line⟩ :: rest := by
  cases tokens with
  | nil => cases h
  | cons token tokens =>
    simp only [eat] at h
    split at h
    case isTrue hlexeme =>
      cases h
      exact ⟨token.line, by rw [← hlexeme]⟩
    case isFalse => cases h

theorem eq_of_eat (h : eat lexeme tokens = .ok (false, rest)) : tokens = rest := by
  cases tokens with
  | nil =>
    cases h
    rfl
  | cons token tokens =>
    simp only [eat] at h
    split at h
    case isTrue => cases h
    case isFalse =>
      cases h
      rfl

theorem ne_of_eat {token : Token} (h : eat lexeme (token :: tokens) = .ok (false, rest)) :
    token.lexeme ≠ lexeme := by
  rintro rfl
  simp [eat] at h

theorem exists_of_expectPunct {mark : Punct} (h : expectPunct mark tokens = .ok ((), rest)) :
    ∃ line, tokens = ⟨.punct mark, line⟩ :: rest := by
  obtain ⟨eaten, behind, heat, hdone⟩ := bind_eq_ok.1 h
  cases eaten with
  | false => cases hdone
  | true =>
    cases hdone
    exact exists_of_eat heat

theorem exists_of_take? {select : Lexeme → Option α} {value : α}
    (h : take? select tokens = .ok (some value, rest)) :
    ∃ token, tokens = token :: rest ∧ select token.lexeme = some value := by
  cases tokens with
  | nil => cases h
  | cons token tokens =>
    simp only [take?] at h
    split at h
    case h_1 hselect =>
      cases h
      exact ⟨token, rfl, hselect⟩
    case h_2 => cases h

theorem eq_of_take? {select : Lexeme → Option α} (h : take? select tokens = .ok (none, rest)) :
    tokens = rest := by
  cases tokens with
  | nil =>
    cases h
    rfl
  | cons token tokens =>
    simp only [take?] at h
    split at h
    case h_1 => cases h
    case h_2 =>
      cases h
      rfl

theorem exists_of_take {wanted : Expected} {select : Lexeme → Option α} {value : α}
    (h : take wanted select tokens = .ok (value, rest)) :
    ∃ token, tokens = token :: rest ∧ select token.lexeme = some value := by
  obtain ⟨found, behind, htake, hdone⟩ := bind_eq_ok.1 h
  cases found with
  | none => cases hdone
  | some found =>
    cases hdone
    exact exists_of_take? htake

theorem exists_of_takeAny {fault : SourceFault} {select : Lexeme → Option α} {value : α}
    (h : takeAny fault select tokens = .ok (value, rest)) :
    ∃ token, tokens = token :: rest ∧ select token.lexeme = some value := by
  cases tokens with
  | nil => cases h
  | cons token tokens =>
    simp only [takeAny] at h
    split at h
    case h_1 hselect =>
      cases h
      exact ⟨token, rfl, hselect⟩
    case h_2 => cases h

theorem exists_of_expectAtom {name : String} (h : expectAtom tokens = .ok (name, rest)) :
    ∃ line, tokens = ⟨.atom name, line⟩ :: rest := by
  obtain ⟨⟨lexeme, line⟩, rfl, hname⟩ := exists_of_take h
  cases lexeme with
  | atom =>
    cases hname
    exact ⟨line, rfl⟩
  | _ => cases hname

theorem exists_of_expectVar {name : String} (h : expectVar tokens = .ok (name, rest)) :
    ∃ line, tokens = ⟨.var name, line⟩ :: rest := by
  obtain ⟨⟨lexeme, line⟩, rfl, hname⟩ := exists_of_take h
  cases lexeme with
  | var =>
    cases hname
    exact ⟨line, rfl⟩
  | _ => cases hname

theorem exists_of_expectEnd (h : expectEnd tokens = .ok ((), rest)) :
    ∃ line, tokens = [⟨.dot, line⟩] ∧ rest = [] := by
  obtain ⟨ended, behind, heat, hlast⟩ := bind_eq_ok.1 h
  cases ended with
  | false => cases hlast
  | true =>
    obtain ⟨line, rfl⟩ := exists_of_eat heat
    cases behind with
    | nil =>
      cases hlast
      exact ⟨line, rfl, rfl⟩
    | cons => cases hlast

theorem length_lt_of_separatedFrom {separator : Punct} {item : Parser α} {limit : Nat}
    {found items : List α} (hlimit : 0 < limit)
    (h : separatedFrom separator item limit found tokens = .ok (items, rest)) :
    found.length < items.length := by
  induction limit generalizing found tokens with
  | zero => cases hlimit
  | succ limit ih =>
    obtain ⟨value, behind, -, heat⟩ := bind_eq_ok.1 h
    obtain ⟨eaten, behind', -, hmore⟩ := bind_eq_ok.1 heat
    cases eaten with
    | false =>
      cases hmore
      simp
    | true =>
      cases limit with
      | zero =>
        cases hmore
        simp
      | succ limit => exact Nat.lt_of_succ_lt (ih (Nat.succ_pos limit) hmore)

/-- A single item has no separator behind it. -/
theorem item_of_separated {separator : Punct} {item : Parser α} {limit : Nat} {value : α}
    (hlimit : 1 < limit) (h : separated limit separator item tokens = .ok ([value], rest)) :
    item tokens = .ok (value, rest) := by
  obtain ⟨limit, rfl⟩ := Nat.exists_eq_add_of_le' (Nat.le_of_lt hlimit)
  obtain ⟨first, behind, hfirst, heat⟩ := bind_eq_ok.1 h
  obtain ⟨eaten, behind', heaten, hmore⟩ := bind_eq_ok.1 heat
  cases eaten with
  | true => exact absurd (length_lt_of_separatedFrom (by omega) hmore) (Nat.lt_irrefl 1)
  | false =>
    obtain rfl := eq_of_eat heaten
    cases hmore
    exact hfirst

end Steps

/-- The tokens are those that are left behind some that fit. -/
def Leaves (tokens rest : List Token) : Prop :=
  ∃ taken, tokens = taken ++ rest ∧ ∀ token ∈ taken, token.lexeme.Fits

/-- From these tokens, if they are good, the parser makes a value with the property. -/
def KeepsFrom (good : Lexeme → Prop) (tokens : List Token) (parser : Parser α) (post : α → Prop) :
    Prop :=
  ∀ ⦃value rest⦄, (∀ token ∈ tokens, good token.lexeme) → parser tokens = .ok (value, rest) →
    post value ∧ Leaves tokens rest

/-- From good tokens the parser makes a value with the property, and what it takes of them fits. -/
def Keeps (good : Lexeme → Prop) (parser : Parser α) (post : α → Prop) : Prop :=
  ∀ tokens, KeepsFrom good tokens parser post

variable {good : Lexeme → Prop} {parser : Parser α} {post : α → Prop} {tokens : List Token}

/-! ## What is left -/

theorem Leaves.refl (tokens : List Token) : Leaves tokens tokens :=
  ⟨[], rfl, List.forall_mem_nil _⟩

theorem Leaves.trans {behind rest : List Token} (h : Leaves tokens behind)
    (h' : Leaves behind rest) : Leaves tokens rest := by
  obtain ⟨taken, rfl, hfits⟩ := h
  obtain ⟨taken', rfl, hfits'⟩ := h'
  exact ⟨taken ++ taken', (List.append_assoc ..).symm, List.forall_mem_append.2 ⟨hfits, hfits'⟩⟩

theorem Leaves.cons {token : Token} {rest : List Token} (h : token.lexeme.Fits) :
    Leaves (token :: rest) rest :=
  ⟨[token], rfl, List.forall_mem_singleton.2 h⟩

theorem Leaves.forall_mem {rest : List Token} (h : Leaves tokens rest)
    (hgood : ∀ token ∈ tokens, good token.lexeme) : ∀ token ∈ rest, good token.lexeme := by
  obtain ⟨taken, rfl, -⟩ := h
  exact fun token hmem => hgood token (List.mem_append_right taken hmem)

/-! ## Composition -/

theorem keeps_pure {value : α} (h : post value) : Keeps good (pure value) post := by
  intro tokens value' rest htokens hpure
  cases hpure
  exact ⟨h, .refl tokens⟩

theorem KeepsFrom.bind {next : α → Parser β} {post' : β → Prop}
    (h : KeepsFrom good tokens parser post)
    (hnext : ∀ value, post value → Keeps good (next value) post') :
    KeepsFrom good tokens (parser >>= next) post' := by
  intro value rest htokens hbind
  obtain ⟨first, behind, hfirst, hrest⟩ := bind_eq_ok.1 hbind
  obtain ⟨hpost, hleaves⟩ := h htokens hfirst
  obtain ⟨hvalue, hleaves'⟩ := hnext first hpost behind (hleaves.forall_mem htokens) hrest
  exact ⟨hvalue, hleaves.trans hleaves'⟩

theorem Keeps.bind {next : α → Parser β} {post' : β → Prop} (h : Keeps good parser post)
    (hnext : ∀ value, post value → Keeps good (next value) post') :
    Keeps good (parser >>= next) post' :=
  fun tokens => (h tokens).bind hnext

theorem Keeps.mono {post' : α → Prop} (h : Keeps good parser post)
    (hpost : ∀ value, post value → post' value) : Keeps good parser post' := by
  intro tokens value rest htokens hok
  obtain ⟨hvalue, hrest⟩ := h tokens htokens hok
  exact ⟨hpost value hvalue, hrest⟩

theorem Keeps.map {f : α → β} {post' : β → Prop} (h : Keeps good parser post)
    (hf : ∀ value, post value → post' (f value)) : Keeps good (f <$> parser) post' := by
  rw [← bind_pure_comp]
  exact h.bind fun value hvalue => keeps_pure (hf value hvalue)

theorem Keeps.ite {condition : Prop} [Decidable condition] {yes no : Parser α}
    (hyes : Keeps good yes post) (hno : Keeps good no post) :
    Keeps good (if condition then yes else no) post := by
  split
  case isTrue => exact hyes
  case isFalse => exact hno

theorem keeps_fail {fault : SourceFault} : Keeps good (fail fault : Parser α) post := by
  intro tokens value rest _ hfail
  cases hfail

theorem keeps_unexpected {wanted : Expected} : Keeps good (unexpected wanted : Parser α) post := by
  intro tokens value rest _ hfail
  cases hfail

/-- A check in front of a parser. -/
theorem Keeps.unless {condition : Prop} [Decidable condition] {fault : SourceFault}
    (h : ¬ condition → Keeps good parser post) :
    Keeps good (if condition then fail fault >>= fun _ : Unit => parser else parser) post := by
  split
  case isTrue => exact (keeps_fail : Keeps good _ fun _ => False).bind fun _ => False.elim
  case isFalse hcondition => exact h hcondition

/-! ## Looking ahead -/

theorem keepsFrom_peek {next : Option Lexeme → Parser β} {post : β → Prop}
    (h : KeepsFrom good tokens (next (tokens.head?.map (·.lexeme))) post) :
    KeepsFrom good tokens (peek >>= next) post :=
  h

theorem keepsFrom_peekTwo {next : Option Lexeme × Option Lexeme → Parser β} {post : β → Prop}
    (h : KeepsFrom good tokens
      (next (tokens.head?.map (·.lexeme), tokens.tail.head?.map (·.lexeme))) post) :
    KeepsFrom good tokens (peekTwo >>= next) post :=
  h

theorem keeps_peek : Keeps good peek (fun _ => True) := by
  intro tokens value rest htokens hpeek
  cases hpeek
  exact ⟨trivial, .refl tokens⟩

theorem keeps_atPunct {mark : Punct} : Keeps good (atPunct mark) (fun _ => True) := by
  intro tokens value rest htokens hat
  cases hat
  exact ⟨trivial, .refl tokens⟩

/-! ## Single tokens -/

/-- A token is taken whose lexeme is known from looking ahead. -/
theorem keepsFrom_skip {lexeme : Lexeme} (hahead : tokens.head?.map (·.lexeme) = some lexeme)
    (hfits : lexeme.Fits) : KeepsFrom good tokens (skip 1) (fun _ => good lexeme) := by
  obtain ⟨token, htoken, rfl⟩ := Option.map_eq_some_iff.1 hahead
  obtain ⟨behind, rfl⟩ := List.head?_eq_some_iff.1 htoken
  intro value rest htokens hskip
  cases hskip
  exact ⟨htokens token List.mem_cons_self, .cons hfits⟩

/-- Two tokens are taken whose lexemes are known from looking ahead. -/
theorem keepsFrom_skipTwo {first second : Lexeme}
    (hahead : (tokens.head?.map (·.lexeme), tokens.tail.head?.map (·.lexeme)) =
      (some first, some second)) (hfirst : first.Fits) (hsecond : second.Fits) :
    KeepsFrom good tokens (skip 2) (fun _ => True) := by
  obtain ⟨hhead, hnext⟩ := Prod.mk.inj hahead
  obtain ⟨token, htoken, rfl⟩ := Option.map_eq_some_iff.1 hhead
  obtain ⟨behind, rfl⟩ := List.head?_eq_some_iff.1 htoken
  obtain ⟨other, hother, rfl⟩ := Option.map_eq_some_iff.1 hnext
  obtain ⟨behind, rfl⟩ := List.head?_eq_some_iff.1 hother
  intro value rest htokens hskip
  cases hskip
  exact ⟨trivial, (Leaves.cons hfirst).trans (.cons hsecond)⟩

/-- Whatever the selection accepts fits. -/
def SelectsFitting (select : Lexeme → Option α) : Prop :=
  ∀ text, select (.bigInteger text) = none

theorem SelectsFitting.fits {select : Lexeme → Option α} (h : SelectsFitting select)
    {lexeme : Lexeme} {value : α} (hselect : select lexeme = some value) : lexeme.Fits := by
  rintro text rfl
  cases (h text).symm.trans hselect

theorem keeps_take? {select : Lexeme → Option α} (hfits : SelectsFitting select) :
    Keeps good (take? select) (fun found => ∀ value ∈ found, ∃ lexeme, good lexeme ∧
      select lexeme = some value) := by
  intro tokens found rest htokens htake
  cases tokens with
  | nil =>
    cases htake
    exact ⟨fun value hvalue => (nomatch hvalue), .refl _⟩
  | cons token tokens =>
    simp only [take?] at htake
    cases hselect : select token.lexeme with
    | none =>
      rw [hselect] at htake
      cases htake
      exact ⟨fun value hvalue => (nomatch hvalue), .refl _⟩
    | some value =>
      rw [hselect] at htake
      cases htake
      refine ⟨fun value' hvalue => ⟨token.lexeme, htokens token List.mem_cons_self, ?_⟩,
        .cons (hfits.fits hselect)⟩
      exact hselect.trans hvalue

theorem keeps_take {wanted : Expected} {select : Lexeme → Option α}
    (hfits : SelectsFitting select) :
    Keeps good (take wanted select) (fun value => ∃ lexeme, good lexeme ∧
      select lexeme = some value) := by
  refine (keeps_take? hfits).bind fun found hfound => ?_
  cases found with
  | none => exact keeps_unexpected
  | some value => exact keeps_pure (hfound value rfl)

theorem keeps_takeAny {fault : SourceFault} {select : Lexeme → Option α}
    (hfits : SelectsFitting select) : Keeps good (takeAny fault select) (fun _ => True) := by
  intro tokens value rest htokens htake
  cases tokens with
  | nil => cases htake
  | cons token tokens =>
    simp only [takeAny] at htake
    split at htake
    case h_1 hselect =>
      cases htake
      exact ⟨trivial, .cons (hfits.fits hselect)⟩
    case h_2 => cases htake

theorem keeps_eat {lexeme : Lexeme} (hfits : lexeme.Fits) :
    Keeps good (eat lexeme) (fun _ => True) := by
  intro tokens value rest htokens heat
  cases tokens with
  | nil =>
    cases heat
    exact ⟨trivial, .refl _⟩
  | cons token tokens =>
    simp only [eat] at heat
    split at heat
    case isTrue hlexeme =>
      cases heat
      exact ⟨trivial, .cons (hlexeme ▸ hfits)⟩
    case isFalse =>
      cases heat
      exact ⟨trivial, .refl _⟩

theorem keeps_eatPunct {mark : Punct} : Keeps good (eatPunct mark) (fun _ => True) :=
  keeps_eat fun _ h => nomatch h

theorem keeps_eatKeyword {word : Keyword} : Keeps good (eatKeyword word) (fun _ => True) :=
  keeps_eat fun _ h => nomatch h

theorem keeps_expectPunct {mark : Punct} : Keeps good (expectPunct mark) (fun _ => True) := by
  refine keeps_eatPunct.bind fun eaten _ => ?_
  cases eaten with
  | true => exact keeps_pure trivial
  | false => exact keeps_unexpected

theorem keeps_expectKeyword {word : Keyword} :
    Keeps good (expectKeyword word) (fun _ => True) := by
  refine keeps_eatKeyword.bind fun eaten _ => ?_
  cases eaten with
  | true => exact keeps_pure trivial
  | false => exact keeps_unexpected

theorem keeps_expectEnd : Keeps good expectEnd (fun _ => True) := by
  have hlast : Keeps good (do if (← peek).isSome then unexpected .endOfForm) (fun _ => True) := by
    refine keeps_peek.bind fun next _ => ?_
    split
    case isTrue => exact keeps_unexpected
    case isFalse => exact keeps_pure trivial
  have hdot : Lexeme.dot.Fits := fun _ h => nomatch h
  refine (keeps_eat hdot).bind fun eaten _ => ?_
  cases eaten with
  | true => exact hlast
  | false => exact (keeps_unexpected : Keeps good _ fun _ => False).bind fun _ => False.elim

theorem keeps_expectAtom : Keeps good expectAtom (fun _ => True) :=
  (keeps_take fun _ => rfl).mono fun _ _ => trivial

theorem keeps_expectVar : Keeps good expectVar (fun _ => True) :=
  (keeps_take fun _ => rfl).mono fun _ _ => trivial

theorem natural?_eq_some {lexeme : Lexeme} {value : Nat} (h : natural? lexeme = some value) :
    lexeme = .integer value := by
  cases lexeme with
  | integer => exact congrArg Lexeme.integer (Option.some.inj h)
  | _ => cases h

/-- A signed integer is that of a token, up to its sign. -/
theorem keeps_expectInteger :
    Keeps good expectInteger (fun value => good (.integer value.natAbs)) := by
  refine keeps_eatPunct.bind fun negative _ => ?_
  refine (keeps_take fun _ => rfl).bind fun value ⟨lexeme, hgood, hselect⟩ => keeps_pure ?_
  rw [natural?_eq_some hselect] at hgood
  cases negative with
  | true => simpa using hgood
  | false => simpa using hgood

theorem keeps_expectArity : Keeps good expectArity (fun arity => good (.integer arity)) := by
  refine keeps_expectInteger.bind fun arity harity => .unless fun hsign => keeps_pure ?_
  rwa [show arity.natAbs = arity.toNat by omega] at harity

/-! ## Repetition -/

theorem keeps_separatedFrom {separator : Punct} {item : Parser α} (h : Keeps good item post)
    (limit : Nat) {found : List α} (hfound : ∀ value ∈ found, post value) :
    Keeps good (separatedFrom separator item limit found) (fun items =>
      (∀ value ∈ items, post value) ∧ (0 < limit ∨ found ≠ [] → items ≠ [])) := by
  induction limit generalizing found with
  | zero => exact keeps_pure ⟨by simpa using hfound, by simp⟩
  | succ limit ih =>
    refine h.bind fun value hvalue => ?_
    have hmore : ∀ other ∈ value :: found, post other := List.forall_mem_cons.2 ⟨hvalue, hfound⟩
    refine keeps_eatPunct.bind fun eaten _ => ?_
    cases eaten with
    | true => exact (ih hmore).mono fun items hitems => ⟨hitems.1, fun _ => hitems.2 (by simp)⟩
    | false => exact keeps_pure ⟨by simpa [or_comm, forall_and] using hmore, by simp⟩

theorem keeps_separated {separator : Punct} {item : Parser α} (h : Keeps good item post)
    {limit : Nat} (hlimit : 0 < limit) :
    Keeps good (separated limit separator item) (fun items =>
      (∀ value ∈ items, post value) ∧ items ≠ []) :=
  (keeps_separatedFrom h limit (List.forall_mem_nil _)).mono fun _ hitems =>
    ⟨hitems.1, hitems.2 (.inl hlimit)⟩

theorem keeps_delimited {close : Punct} {item : Parser α} (h : Keeps good item post)
    (limit : Nat) :
    Keeps good (delimited limit close item) (fun items => ∀ value ∈ items, post value) := by
  refine keeps_eatPunct.bind fun eaten _ => ?_
  cases eaten with
  | true => exact keeps_pure (List.forall_mem_nil _)
  | false =>
    refine (keeps_separatedFrom h limit (List.forall_mem_nil _)).bind fun items hitems => ?_
    exact keeps_expectPunct.bind fun _ _ => keeps_pure hitems.1

/-! ## Parsers that take all tokens -/

/-- The parser leaves nothing of the tokens. -/
def TakesAll (parser : Parser α) : Prop :=
  ∀ ⦃tokens value rest⦄, parser tokens = .ok (value, rest) → rest = []

theorem takesAll_bind {parser : Parser α} {next : α → Parser β}
    (h : ∀ value, TakesAll (next value)) : TakesAll (parser >>= next) := by
  intro tokens value rest hok
  obtain ⟨first, behind, -, hnext⟩ := bind_eq_ok.1 hok
  exact h first hnext

/-- Behind the end marker there are no tokens to leave. -/
theorem takesAll_expectEnd {next : Unit → Parser α}
    (h : ∀ ⦃value rest⦄, next () [] = .ok (value, rest) → rest = []) :
    TakesAll (expectEnd >>= next) := by
  intro tokens value rest hok
  obtain ⟨⟨⟩, behind, hend, hnext⟩ := bind_eq_ok.1 hok
  obtain ⟨line, -, rfl⟩ := exists_of_expectEnd hend
  exact h hnext

/-- What a parser takes fits. -/
theorem TakesAll.fits {parser : Parser α} {value : α} (h : TakesAll parser)
    (hkeeps : Keeps (fun _ => True) parser post)
    (hok : parser tokens = .ok (value, rest)) : ∀ token ∈ tokens, token.lexeme.Fits := by
  obtain ⟨-, taken, rfl, hfits⟩ := hkeeps tokens (fun _ _ => trivial) hok
  rwa [h hok, List.append_nil]

/-- Where a parser takes all tokens or fails, an integer that is too large makes it fail. -/
theorem TakesAll.exists_error {parser : Parser α} (h : TakesAll parser)
    (hkeeps : Keeps (fun _ => True) parser post) {token : Token}
    (htoken : token ∈ tokens) {text : String} (hbig : token.lexeme = .bigInteger text) :
    ∃ error, parser.parse tokens = .error error := by
  cases hparse : parser.parse tokens with
  | error error => exact ⟨error, rfl⟩
  | ok value =>
    obtain ⟨rest, hok⟩ := ok_of_parse hparse
    exact absurd hbig (h.fits hkeeps hok token htoken text)

end Parser

end HeaderForms
