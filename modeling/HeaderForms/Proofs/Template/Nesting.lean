-- SUMMARY: Nested backquotes: filling departs from the reading by depth inside a kept splice only.
import HeaderForms.Proofs.Bindings
import HeaderForms.Proofs.Template.Depth

/-!
# Nested backquotes

Filling departs from the reading by depth where an argument is taken inside a kept splice, and
nowhere else. What tells the two apart are bindings that mark each argument: a parameter that is
bound to a list of one mark puts one form in its place, whether it is unquoted or spliced. So two
readings of a list have as many items as the list, and they differ as soon as they differ in one of
them.
-/

namespace HeaderForms

open Form

namespace Template

variable {bindings : List (String × Form)} {depth : Nat}

/-! ## Marked arguments -/

def mark : Form :=
  .integer 0

/-- The same names, all bound to the mark. -/
def marked (bindings : List (String × Form)) : List (String × Form) :=
  bindings.map fun (name, _) => (name, .list [mark])

theorem eq_of_lookup_marked {name value : Form} (h : lookup (marked bindings) name = .ok value) :
    value = .list [mark] := by
  unfold lookup at h
  split at h
  case h_1 found hfound =>
    cases h
    obtain ⟨symbol, -, hlookup⟩ := Option.bind_eq_some_iff.1 hfound
    obtain ⟨_, -, heq⟩ := List.mem_map.1 (List.mem_reverse.1 (mem_of_lookup hlookup))
    exact (Prod.mk.inj heq).2.symm
  case h_2 => cases h

theorem lookup_marked {name value : Form} (h : lookup bindings name = .ok value) :
    lookup (marked bindings) name = .ok (.list [mark]) := by
  suffices hsome : ∃ found, lookup (marked bindings) name = .ok found by
    obtain ⟨found, hfound⟩ := hsome
    rw [hfound, eq_of_lookup_marked hfound]
  unfold lookup at h
  split at h
  case h_2 => cases h
  case h_1 found hfound =>
    obtain ⟨symbol, hsymbol, hlookup⟩ := Option.bind_eq_some_iff.1 hfound
    have hname : symbol ∈ (marked bindings).reverse.map Prod.fst := by
      rw [List.map_reverse, List.mem_reverse, marked, List.map_map]
      exact List.mem_map_of_mem (f := Prod.fst) (List.mem_reverse.1 (mem_of_lookup hlookup))
    obtain ⟨found', hfound'⟩ := exists_lookup hname
    exact ⟨found', by rw [lookup, hsymbol, Option.bind_some, hfound']⟩

/-- A splice at depth 1 puts the mark in its place. -/
theorem instantiateAll_marked (inner : Form) (items : List Form) :
    instantiateAll (marked bindings) 1 (.list [.symbol "comma-at", inner] :: items) = (do
      let _ ← lookup (marked bindings) inner
      return mark :: (← instantiateAll (marked bindings) 1 items)) := by
  rw [instantiateAll, if_pos rfl]
  cases hlookup : lookup (marked bindings) inner with
  | error error => rfl
  | ok value =>
    rw [eq_of_lookup_marked hlookup]
    rfl

theorem fillAll_marked (inner : Form) (items : List Form) :
    fillAll (marked bindings) 1 (.list [.symbol "comma-at", inner] :: items) = (do
      let _ ← lookup (marked bindings) inner
      return mark :: (← fillAll (marked bindings) 1 items)) := by
  simp only [fillAll, wrapped?_wrap]
  cases hlookup : lookup (marked bindings) inner with
  | error error => rfl
  | ok value =>
    rw [eq_of_lookup_marked hlookup]
    rfl

section

variable {α β γ : Type} {x x' : Except ExpandError α} {y y' : Except ExpandError β}

/-- The second has a value wherever the first has one. -/
def Fills (x : Except ExpandError α) (y : Except ExpandError β) : Prop :=
  ∀ value, x = .ok value → ∃ value', y = .ok value'

theorem fills_error {error : ExpandError} : Fills (.error error : Except ExpandError α) y := by
  rintro value ⟨⟩

theorem Fills.map {δ : Type} {f : α → γ} {g : β → δ} (h : Fills x y) :
    Fills (f <$> x) (g <$> y) := by
  cases x with
  | error error => exact fills_error
  | ok value =>
    obtain ⟨value', rfl⟩ := h value rfl
    exact fun _ _ => ⟨g value', rfl⟩

theorem Fills.bind {δ : Type} {f : α → Except ExpandError γ} {g : β → Except ExpandError δ}
    (h : Fills x y) (hnext : ∀ a b, Fills (f a) (g b)) : Fills (x >>= f) (y >>= g) := by
  cases x with
  | error error => exact fills_error
  | ok value =>
    obtain ⟨value', rfl⟩ := h value rfl
    exact hnext value value'

/-- The two have no value in common. -/
def Apart (x x' : Except ExpandError α) : Prop :=
  ∀ value, x = .ok value → x' ≠ .ok value

theorem apart_error {error : ExpandError} : Apart (.error error) x' := by
  rintro value ⟨⟩

theorem apart_of_error {error : ExpandError} : Apart x (.error error) := by
  rintro value - ⟨⟩

theorem Apart.map {f : α → γ} (hf : Function.Injective f) (h : Apart x x') :
    Apart (f <$> x) (f <$> x') := by
  cases x with
  | error error => exact apart_error
  | ok value =>
    cases x' with
    | error error => exact apart_of_error
    | ok value' =>
      intro found hfound hfound'
      cases hfound
      injection hfound' with heq
      exact h value rfl (congrArg Except.ok (hf heq))

theorem Apart.both {f : α → β → γ} (hf : Function.Injective2 f) (h : Apart x x' ∨ Apart y y') :
    Apart (do let a ← x; return f a (← y)) (do let a ← x'; return f a (← y')) := by
  cases x with
  | error error => exact apart_error
  | ok a =>
    cases x' with
    | error error => exact apart_of_error
    | ok a' =>
      cases y with
      | error error => exact apart_error
      | ok b =>
        cases y' with
        | error error => exact apart_of_error
        | ok b' =>
          intro found hfound hfound'
          cases hfound
          injection hfound' with heq
          obtain ⟨rfl, rfl⟩ := hf heq
          exact h.elim (fun h => h _ rfl rfl) fun h => h _ rfl rfl

end

/-! ### Values -/

/-- The mark can stand for any argument. -/
theorem fills_instantiate (form : Form) : ∀ {depth : Nat}, 0 < depth →
    Fills (instantiate bindings depth form) (instantiate (marked bindings) depth form) := by
  refine @Template.induction
    (fun form => ∀ {depth : Nat}, 0 < depth →
      Fills (instantiate bindings depth form) (instantiate (marked bindings) depth form))
    (fun items => ∀ {depth : Nat}, 0 < depth →
      Fills (instantiateAll bindings depth items) (instantiateAll (marked bindings) depth items))
    ?symbol ?literal ?comma ?backquote ?list ?dotted ?tuple ?nil ?splice ?item form
  case symbol => exact fun name depth _ _ _ => ⟨_, instantiate_symbol name⟩
  case literal => exact fun form hliteral depth _ _ _ => ⟨_, instantiate_literal hliteral⟩
  case comma =>
    intro inner ih depth hdepth
    rw [instantiate, instantiate]
    split
    case isTrue => exact fun value hvalue => ⟨_, lookup_marked hvalue⟩
    case isFalse => exact (ih (by omega)).map
  case backquote =>
    intro inner ih depth hdepth
    rw [instantiate, instantiate]
    exact (ih (Nat.succ_pos depth)).map
  case list =>
    intro items hcomma hbackquote ih depth hdepth
    rw [instantiate_list hcomma hbackquote, instantiate_list hcomma hbackquote]
    exact (ih hdepth).map
  case dotted =>
    intro items tail ih ihTail depth hdepth
    rw [instantiate, instantiate]
    exact (ih hdepth).bind fun _ _ => (ihTail hdepth).map
  case tuple =>
    intro items ih depth hdepth
    rw [instantiate, instantiate]
    exact (ih hdepth).map
  case nil =>
    intro depth _
    rw [instantiateAll, instantiateAll]
    exact fun _ _ => ⟨[], rfl⟩
  case splice =>
    intro inner items ih ihItems depth hdepth
    by_cases hone : depth = 1
    · subst hone
      rw [instantiateAll_marked, instantiateAll, if_pos rfl]
      refine Fills.bind (fun value hvalue => ⟨_, lookup_marked hvalue⟩) fun value _ => ?_
      cases value with
      | list spliced => exact (ihItems hdepth).map
      | symbol | integer | float | string | dotted | tuple | binary => exact fills_error
    · rw [instantiateAll, instantiateAll, if_neg hone, if_neg hone]
      exact (ih (by omega)).map.bind fun _ _ => (ihItems hdepth).map
  case item =>
    intro item items hitem ih ihItems depth hdepth
    rw [instantiateAll_item hitem, instantiateAll_item hitem]
    exact (ih hdepth).bind fun _ _ => (ihItems hdepth).map

/-! ### Different values -/

theorem cons_injective2 : Function.Injective2 (List.cons : Form → List Form → List Form) := by
  intro first first' others others' heq
  injection heq with hfirst hothers
  exact ⟨hfirst, hothers⟩

theorem wrap_injective (head : String) : Function.Injective (call head [·]) := by
  intro inner inner' heq
  injection heq with heq
  injection heq with _ heq
  exact (List.cons.inj heq).1

/-- Different heads keep lists apart, whatever is behind them. -/
theorem apart_heads {x x' : Except ExpandError Form} {y y' : Except ExpandError (List Form)}
    (h : Apart x x' ∨ Apart y y') :
    Apart (do let a ← x; return a :: (← y)) (do let a ← x'; return a :: (← y')) :=
  Apart.both cons_injective2 h

theorem apart_marks {x : Except ExpandError Form} {y y' : Except ExpandError (List Form)}
    (h : Apart y y') :
    Apart (do let _ ← x; return mark :: (← y)) (do let _ ← x; return mark :: (← y')) := by
  cases x with
  | error error => exact apart_error
  | ok value => exact Apart.map (List.cons_injective) h

/-- A mark is no list. -/
theorem apart_mark {x x' : Except ExpandError Form} {y y' : Except ExpandError (List Form)}
    {head : String} : Apart (do let _ ← x; return mark :: (← y))
      (do let a ← (call head [·]) <$> x'; return a :: (← y')) := by
  cases x with
  | error error => exact apart_error
  | ok value =>
    cases x' with
    | error error => exact apart_of_error
    | ok inner =>
      have hmark : Apart (.ok mark) (.ok (call head [inner])) := by
        rintro found hfound heq
        cases hfound
        cases heq
      exact apart_heads (.inl hmark)

theorem list_injective : Function.Injective Form.list :=
  fun _ _ heq => Form.list.inj heq

theorem tuple_injective : Function.Injective Form.tuple :=
  fun _ _ heq => Form.tuple.inj heq

theorem dotted_injective2 : Function.Injective2 Form.dotted :=
  fun _ _ _ _ heq => Form.dotted.inj heq

/-- Where an argument is taken at a depth, filling the form at a greater one leaves the unquote. -/
theorem apart_deeper (form : Form) : ∀ {depth deeper : Nat}, 0 < depth → depth < deeper →
    takes depth form = true →
    Apart (instantiate (marked bindings) depth form) (fill (marked bindings) deeper form) := by
  refine @Template.induction
    (fun form => ∀ {depth deeper : Nat}, 0 < depth → depth < deeper → takes depth form = true →
      Apart (instantiate (marked bindings) depth form) (fill (marked bindings) deeper form))
    (fun items => ∀ {depth deeper : Nat}, 0 < depth → depth < deeper → takesAny depth items = true →
      Apart (instantiateAll (marked bindings) depth items) (fillAll (marked bindings) deeper items))
    ?symbol ?literal ?comma ?backquote ?list ?dotted ?tuple ?nil ?splice ?item form
  case symbol =>
    intro name depth deeper _ _ h
    cases h
  case literal =>
    intro form hliteral depth deeper _ _ h
    rw [takes_literal hliteral] at h
    cases h
  case comma =>
    intro inner ih depth deeper hdepth hdeeper h
    rw [instantiate, fill, if_pos (show 1 < deeper by omega)]
    by_cases hone : depth = 1
    · rw [if_pos hone]
      intro value hvalue
      rw [eq_of_lookup_marked hvalue]
      intro heq
      cases hfill : fill (marked bindings) (deeper - 1) inner with
      | error error =>
        rw [hfill] at heq
        cases heq
      | ok filled =>
        rw [hfill] at heq
        cases heq
    · rw [takes, decide_eq_false hone, Bool.false_or] at h
      rw [if_neg hone]
      exact (ih (show 0 < depth - 1 by omega) (by omega) h).map (wrap_injective "comma")
  case backquote =>
    intro inner ih depth deeper hdepth hdeeper h
    rw [takes] at h
    rw [instantiate, fill]
    exact (ih (Nat.succ_pos depth) (Nat.succ_lt_succ hdeeper) h).map (wrap_injective "backquote")
  case list =>
    intro items hcomma hbackquote ih depth deeper hdepth hdeeper h
    rw [takes_list hcomma hbackquote] at h
    rw [instantiate_list hcomma hbackquote, fill_list hcomma hbackquote]
    exact (ih hdepth hdeeper h).map list_injective
  case dotted =>
    intro items tail ih ihTail depth deeper hdepth hdeeper h
    rw [takes, Bool.or_eq_true_iff] at h
    rw [instantiate, fill]
    exact Apart.both dotted_injective2 (h.imp (ih hdepth hdeeper) (ihTail hdepth hdeeper))
  case tuple =>
    intro items ih depth deeper hdepth hdeeper h
    rw [takes] at h
    rw [instantiate, fill]
    exact (ih hdepth hdeeper h).map tuple_injective
  case nil =>
    intro depth deeper _ _ h
    cases h
  case splice =>
    intro inner items ih ihItems depth deeper hdepth hdeeper h
    have hkept : deeper ≠ 1 := by omega
    rw [fillAll_kept (.inr hkept), fill_splice hkept]
    by_cases hone : depth = 1
    · subst hone
      rw [instantiateAll_marked]
      exact apart_mark
    · rw [takesAny, decide_eq_false hone, Bool.false_or, Bool.or_eq_true_iff] at h
      rw [instantiateAll, if_neg hone]
      refine apart_heads (h.imp (fun hinner => ?_) (ihItems hdepth hdeeper))
      exact (ih (show 0 < depth - 1 by omega) (by omega) hinner).map (wrap_injective "comma-at")
  case item =>
    intro item items hitem ih ihItems depth deeper hdepth hdeeper h
    rw [takesAny_item hitem, Bool.or_eq_true_iff] at h
    rw [instantiateAll_item hitem, fillAll_kept (.inl (wrapped?_eq_none hitem))]
    exact apart_heads (h.imp (ih hdepth hdeeper) (ihItems hdepth hdeeper))

/-- The argument that is taken inside a kept splice shows. -/
theorem apart_of_takesInSplice (form : Form) : ∀ {depth : Nat}, 0 < depth →
    takesInSplice depth form = true →
    Apart (instantiate (marked bindings) depth form) (fill (marked bindings) depth form) := by
  refine @Template.induction
    (fun form => ∀ {depth : Nat}, 0 < depth → takesInSplice depth form = true →
      Apart (instantiate (marked bindings) depth form) (fill (marked bindings) depth form))
    (fun items => ∀ {depth : Nat}, 0 < depth → anyTakesInSplice depth items = true →
      Apart (instantiateAll (marked bindings) depth items) (fillAll (marked bindings) depth items))
    ?symbol ?literal ?comma ?backquote ?list ?dotted ?tuple ?nil ?splice ?item form
  case symbol =>
    intro name depth _ h
    cases h
  case literal =>
    intro form hliteral depth _ h
    rw [takesInSplice_literal hliteral] at h
    cases h
  case comma =>
    intro inner ih depth hdepth h
    rw [takesInSplice, Bool.and_eq_true_iff, decide_eq_true_eq] at h
    rw [instantiate, fill, if_neg h.1, if_pos (show 1 < depth by omega)]
    exact (ih (show 0 < depth - 1 by omega) h.2).map (wrap_injective "comma")
  case backquote =>
    intro inner ih depth hdepth h
    rw [takesInSplice] at h
    rw [instantiate, fill]
    exact (ih (Nat.succ_pos depth) h).map (wrap_injective "backquote")
  case list =>
    intro items hcomma hbackquote ih depth hdepth h
    rw [takesInSplice_list hcomma hbackquote] at h
    rw [instantiate_list hcomma hbackquote, fill_list hcomma hbackquote]
    exact (ih hdepth h).map list_injective
  case dotted =>
    intro items tail ih ihTail depth hdepth h
    rw [takesInSplice, Bool.or_eq_true_iff] at h
    rw [instantiate, fill]
    exact Apart.both dotted_injective2 (h.imp (ih hdepth) (ihTail hdepth))
  case tuple =>
    intro items ih depth hdepth h
    rw [takesInSplice] at h
    rw [instantiate, fill]
    exact (ih hdepth h).map tuple_injective
  case nil =>
    intro depth _ h
    cases h
  case splice =>
    intro inner items _ ihItems depth hdepth h
    rw [anyTakesInSplice, Bool.or_eq_true_iff] at h
    by_cases hone : depth = 1
    · subst hone
      rw [instantiateAll_marked, fillAll_marked]
      exact apart_marks (ihItems hdepth (by simpa using h))
    · rw [instantiateAll, if_neg hone, fillAll_kept (.inr hone), fill_splice hone]
      refine apart_heads (h.imp (fun hinner => ?_) (ihItems hdepth))
      have htakes : takes (depth - 1) inner = true := by simpa [hone] using hinner
      exact (apart_deeper inner (by omega) (by omega) htakes).map (wrap_injective "comma-at")
  case item =>
    intro item items hitem ih ihItems depth hdepth h
    rw [anyTakesInSplice_item hitem, Bool.or_eq_true_iff] at h
    rw [instantiateAll_item hitem, fillAll_kept (.inl (wrapped?_eq_none hitem))]
    exact apart_heads (h.imp (ih hdepth) (ihItems hdepth))

/-! ## The two readings -/

/-- Filling a template is reading it by depth exactly where no argument is taken inside a kept splice:
then both have the same results and the same errors for all bindings, and otherwise the names that
make up bindings for the reading can be bound so that the two differ. -/
theorem fill_eq_instantiate (template : Form) :
    (takesInSplice 1 template = false →
      ∀ bindings, fill bindings 1 template = instantiate bindings 1 template) ∧
    (takesInSplice 1 template = true →
      ∀ bindings form, instantiate bindings 1 template = .ok form →
        ∃ others, others.map Prod.fst = bindings.map Prod.fst ∧
          fill others 1 template ≠ instantiate others 1 template) := by
  refine ⟨fun h bindings => fill_eq_instantiate_of template Nat.one_pos h, fun h bindings form hform => ?_⟩
  obtain ⟨other, hother⟩ := fills_instantiate template Nat.one_pos form hform
  have hapart : fill (marked bindings) 1 template ≠ .ok other :=
    apart_of_takesInSplice template Nat.one_pos h other hother
  refine ⟨marked bindings, ?_, hother.symm ▸ hapart⟩
  rw [marked, List.map_map]
  rfl

/-- An unquote below an unquote is read alike, and one below a splice is not. -/
theorem fill_eq_instantiate_sample :
    (∀ bindings, fill bindings 1 (backquote (.list [.symbol "y", comma (comma (.symbol "A"))])) =
      instantiate bindings 1 (backquote (.list [.symbol "y", comma (comma (.symbol "A"))]))) ∧
    ∃ others, others.map Prod.fst = ["A"] ∧
      fill others 1 (backquote (.list [.symbol "y", call "comma-at" [comma (.symbol "A")]])) ≠
        instantiate others 1
          (backquote (.list [.symbol "y", call "comma-at" [comma (.symbol "A")]])) := by
  constructor
  · exact (fill_eq_instantiate _).1 rfl
  · exact (fill_eq_instantiate _).2 rfl [("A", .symbol "q")]
      (backquote (.list [.symbol "y", call "comma-at" [.symbol "q"]])) rfl

/-- The argument inside a splice that is kept is not taken. -/
theorem not_fill_eq_instantiate :
    ¬ ∀ (bindings : List (String × Form)) (template : Form),
      fill bindings 1 template = instantiate bindings 1 template := by
  intro hall
  -- The template `(x `(y ,@,A)), less its own backquote.
  let filled (inner : Form) : Form :=
    .list [.symbol "x", backquote (.list [.symbol "y", call "comma-at" [inner]])]
  have hfill : fill [("A", .symbol "q")] 1 (filled (comma (.symbol "A"))) =
      .ok (filled (comma (.symbol "A"))) := by rfl
  have hinstantiate : instantiate [("A", .symbol "q")] 1 (filled (comma (.symbol "A"))) =
      .ok (filled (.symbol "q")) := by rfl
  have heq := (hfill.symm.trans (hall _ _)).trans hinstantiate
  cases heq

end Template

end HeaderForms
