-- SUMMARY: What parsers answer with, and where a parser that stops earlier has the same answer.
import HeaderForms.Proofs.Token.Parser

/-!
# Parsers cut short

A parser that makes its answer early can stop there: a shorter one that takes the same steps up to
that point answers with as much, on the same tokens and whatever follows them. The rules compare the
two step by step. Where the shorter one ends, all that counts is what the longer one can still
answer with.
-/

namespace HeaderForms.Parser

variable {α β : Type} {limit : Nat}

/-- What the parser takes of the tokens, or nothing if it fails. -/
def taken (parser : Parser α) (tokens : List Token) : List Token :=
  match parser tokens with
  | .ok (_, rest) => tokens.take (tokens.length - rest.length)
  | .error _ => []

theorem taken_eq {parser : Parser α} {tokens front rest : List Token} {value : α}
    (h : parser tokens = .ok (value, rest)) (hfront : tokens = front ++ rest) :
    taken parser tokens = front := by
  simp only [taken, h]
  simp [hfront]

/-! ## What parsers answer with -/

/-- Whatever the parser answers with has the property. -/
def Yields (parser : Parser α) (post : α → Prop) : Prop :=
  ∀ ⦃tokens value rest⦄, parser tokens = .ok (value, rest) → post value

theorem yields_pure {value : α} {post : α → Prop} (h : post value) : Yields (pure value) post := by
  intro tokens value' rest hpure
  cases hpure
  exact h

theorem yields_any {parser : Parser α} : Yields parser fun _ => True :=
  fun _ _ _ _ => trivial

theorem Yields.mono {parser : Parser α} {post post' : α → Prop} (h : Yields parser post)
    (hpost : ∀ value, post value → post' value) : Yields parser post' :=
  fun _ value _ hok => hpost value (h hok)

theorem Yields.bind {parser : Parser α} {next : α → Parser β} {post : α → Prop} {post' : β → Prop}
    (h : Yields parser post) (hnext : ∀ value, post value → Yields (next value) post') :
    Yields (parser >>= next) post' := by
  intro tokens value rest hok
  obtain ⟨first, behind, hfirst, hrest⟩ := bind_eq_ok.1 hok
  exact hnext first (h hfirst) hrest

theorem Yields.map {parser : Parser α} {f : α → β} {post : α → Prop} {post' : β → Prop}
    (h : Yields parser post) (hf : ∀ value, post value → post' (f value)) :
    Yields (f <$> parser) post' := by
  rw [← bind_pure_comp]
  exact h.bind fun value hvalue => yields_pure (hf value hvalue)

theorem Yields.ite {condition : Prop} [Decidable condition] {yes no : Parser α} {post : α → Prop}
    (hyes : Yields yes post) (hno : Yields no post) :
    Yields (if condition then yes else no) post := by
  split
  · exact hyes
  · exact hno

theorem yields_unexpected {wanted : Expected} {post : α → Prop} :
    Yields (unexpected wanted : Parser α) post := by
  intro tokens value rest hfail
  cases hfail

theorem yields_failed {fault : SourceFault} {next : Unit → Parser α} {post : α → Prop} :
    Yields (fail fault >>= next) post := by
  intro tokens value rest hfail
  cases hfail

theorem Yields.unless {condition : Prop} [Decidable condition] {fault : SourceFault}
    {next : Parser α} {post : α → Prop} (h : Yields next post) :
    Yields (if condition then fail fault >>= fun _ : Unit => next else next) post :=
  .ite yields_failed h

/-- The first of the items is the first that was found. -/
theorem yields_separatedFrom {separator : Punct} {item : Parser α} {found : List α}
    (hfound : found ≠ []) :
    Yields (separatedFrom separator item limit found) fun items =>
      items.head? = found.getLast? := by
  induction limit generalizing found with
  | zero => exact yields_pure List.head?_reverse
  | succ limit ih =>
    refine yields_any.bind fun value _ => yields_any.bind fun eaten _ => ?_
    have hlast : (value :: found).getLast? = found.getLast? :=
      List.getLast?_cons_of_ne_nil hfound
    rw [← hlast]
    exact .ite (ih (List.cons_ne_nil _ _)) (yields_pure List.head?_reverse)

theorem yields_separated {separator : Punct} {item : Parser α} :
    Yields (separated limit separator item) fun items => items.length ≤ limit := by
  have hfrom : ∀ rounds, ∀ found : List α, found.length + rounds ≤ limit →
      Yields (separatedFrom separator item rounds found) fun items => items.length ≤ limit := by
    intro rounds
    induction rounds with
    | zero => exact fun found hfound => yields_pure (by simpa using hfound)
    | succ rounds ih =>
      intro found hfound
      have hmore : ∀ value : α, (value :: found).length + rounds ≤ limit := by
        intro value
        rw [List.length_cons]
        omega
      refine yields_any.bind fun value _ => yields_any.bind fun eaten _ => ?_
      refine .ite (ih _ (hmore value)) (yields_pure ?_)
      rw [List.length_reverse]
      exact Nat.le_of_add_right_le (hmore value)
  exact hfrom limit [] (by simp)

theorem yields_delimited {close : Punct} {item : Parser α} :
    Yields (delimited limit close item) fun items => items.length ≤ limit :=
  yields_any.bind fun _ _ => .ite (yields_pure (Nat.zero_le limit)) <|
    yields_separated.bind fun _ hlength => yields_any.bind fun _ _ => yields_pure hlength

/-! ## Parsers cut short -/

/-- Where the second parser answers with something that has an answer, that is what the first
answers with. -/
def Cuts (short : Parser β) (long : Parser α) (answer : α → Option β) : Prop :=
  ∀ ⦃tokens value rest found⦄, long tokens = .ok (value, rest) → answer value = some found →
    ∃ body, short tokens = .ok (found, body)

section Rules

variable {γ : Type} {short : Parser β} {long : Parser α} {answer : α → Option β}

theorem cuts_pure {found : β} (h : Yields long fun value => answer value = some found) :
    Cuts (pure found) long answer := by
  intro tokens value rest found' hlong hfound
  obtain rfl := Option.some.inj ((h hlong).symm.trans hfound)
  exact ⟨tokens, rfl⟩

theorem cuts_none (h : Yields long fun value => answer value = none) : Cuts short long answer := by
  intro tokens value rest found hlong hfound
  rw [h hlong] at hfound
  cases hfound

theorem Cuts.bind {parser : Parser γ} {short : γ → Parser β} {long : γ → Parser α}
    (h : ∀ value, Cuts (short value) (long value) answer) :
    Cuts (parser >>= short) (parser >>= long) answer := by
  intro tokens value rest found hlong hfound
  obtain ⟨first, behind, hfirst, hrest⟩ := bind_eq_ok.1 hlong
  obtain ⟨body, hbody⟩ := h first hrest hfound
  exact ⟨body, bind_eq_ok.2 ⟨first, behind, hfirst, hbody⟩⟩

theorem Cuts.peek {next : Option Lexeme → Parser α} (h : ∀ ahead, Cuts short (next ahead) answer) :
    Cuts short (Parser.peek >>= next) answer := by
  intro tokens value rest found hlong hfound
  obtain ⟨ahead, behind, hpeek, hrest⟩ := bind_eq_ok.1 hlong
  cases hpeek
  exact h _ hrest hfound

/-- What is behind the longer parser does not change its answer. -/
theorem Cuts.before {behind : α → Parser γ} {answer' : γ → Option β} (h : Cuts short long answer)
    (hbehind : ∀ value, Yields (behind value) fun last => answer' last = answer value) :
    Cuts short (long >>= behind) answer' := by
  intro tokens value rest found hlong hfound
  obtain ⟨first, between, hfirst, hrest⟩ := bind_eq_ok.1 hlong
  exact h hfirst ((hbehind first hrest).symm.trans hfound)

theorem Cuts.ite {condition : Prop} [Decidable condition] {short' : Parser β} {long' : Parser α}
    (h : Cuts short long answer) (h' : Cuts short' long' answer) :
    Cuts (if condition then short else short') (if condition then long else long') answer := by
  split
  · exact h
  · exact h'

/-- A list has the answer of its first item. -/
theorem Cuts.separated {separator : Punct} {answers : List α → Option β} (hlimit : 0 < limit)
    (h : Cuts short long answer)
    (hanswers : ∀ first items, items.head? = some first → answers items = answer first) :
    Cuts short (Parser.separated limit separator long) answers := by
  obtain ⟨limit, rfl⟩ := Nat.exists_eq_add_of_le' hlimit
  refine h.before fun first => yields_any.bind fun eaten _ => ?_
  have hitems : ∀ items : List α, items.head? = [first].getLast? → answers items = answer first :=
    hanswers first
  refine .ite ?_ (yields_pure (hitems _ rfl))
  exact (yields_separatedFrom (List.cons_ne_nil _ _)).mono hitems

end Rules

end HeaderForms.Parser
