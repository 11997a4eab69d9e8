-- SUMMARY: The reading of templates by depth, and where filling follows it.
import HeaderForms.Proofs.Form.Basic
import HeaderForms.Proofs.Template.Filling

/-!
# Reading by depth

Quasi-quotation reads a template by depth. A backquote raises the depth of the form it holds, and an
unquote and a splice both lower it: at depth 1 they stand for their argument, and further down they
are kept and what they hold is read one level up. Filling follows this reading but for a splice that
is kept, whose form it reads at the same depth. So the two agree where no argument is taken inside a
kept splice.
-/

namespace HeaderForms

open Form

/-! ## Structure of templates -/

/-- Induction along the reading of a template: a list that is no unquote and no backquote is read item
by item, and of an item that is a splice the form that is spliced is read. -/
theorem Template.induction {motive : Form → Prop} {motiveAll : List Form → Prop}
    (symbol : ∀ name, motive (.symbol name))
    (literal : ∀ form, IsLiteral form → motive form)
    (comma : ∀ inner, motive inner → motive (.list [.symbol "comma", inner]))
    (backquote : ∀ inner, motive inner → motive (.list [.symbol "backquote", inner]))
    (list : ∀ items, (∀ inner, items ≠ [.symbol "comma", inner]) →
      (∀ inner, items ≠ [.symbol "backquote", inner]) → motiveAll items → motive (.list items))
    (dotted : ∀ items tail, motiveAll items → motive tail → motive (.dotted items tail))
    (tuple : ∀ items, motiveAll items → motive (.tuple items))
    (nil : motiveAll [])
    (splice : ∀ inner items, motive inner → motiveAll items →
      motiveAll (.list [.symbol "comma-at", inner] :: items))
    (item : ∀ item items, (∀ inner, item ≠ .list [.symbol "comma-at", inner]) → motive item →
      motiveAll items → motiveAll (item :: items))
    (form : Form) : motive form := by
  suffices h : motive form ∧
      ∀ inner, form = .list [.symbol "comma-at", inner] → motive inner from h.1
  have hall : ∀ items : List Form, (∀ item ∈ items, motive item ∧
      ∀ inner, item = .list [.symbol "comma-at", inner] → motive inner) → motiveAll items := by
    intro items h
    induction items with
    | nil => exact nil
    | cons first items ih =>
      obtain ⟨hfirst, hitems⟩ := List.forall_mem_cons.1 h
      by_cases hsplice : ∃ inner, first = .list [.symbol "comma-at", inner]
      · obtain ⟨inner, rfl⟩ := hsplice
        exact splice inner items (hfirst.2 inner rfl) (ih hitems)
      · exact item first items (fun inner heq => hsplice ⟨inner, heq⟩) hfirst.1 (ih hitems)
  induction form using Form.induction with
  | symbol name => exact ⟨symbol name, nofun⟩
  | integer | float | string | binary => exact ⟨literal _ trivial, nofun⟩
  | list items ih =>
    constructor
    · by_cases hcomma : ∃ inner, items = [.symbol "comma", inner]
      · obtain ⟨inner, rfl⟩ := hcomma
        exact comma inner (ih inner (by simp)).1
      by_cases hbackquote : ∃ inner, items = [.symbol "backquote", inner]
      · obtain ⟨inner, rfl⟩ := hbackquote
        exact backquote inner (ih inner (by simp)).1
      exact list items (fun inner heq => hcomma ⟨inner, heq⟩)
        (fun inner heq => hbackquote ⟨inner, heq⟩) (hall items ih)
    · intro inner heq
      injection heq with heq
      exact (ih inner (by simp [heq])).1
  | dotted items tail ih ihTail => exact ⟨dotted items tail (hall items ih) ihTail.1, nofun⟩
  | tuple items ih => exact ⟨tuple items (hall items ih), nofun⟩

namespace Template

/-! ## The reading by depth -/

mutual

/-- What a form stands for at a depth. -/
def instantiate (bindings : List (String × Form)) (depth : Nat) : Form → Except ExpandError Form
  | .list [.symbol "comma", inner] =>
    if depth = 1 then lookup bindings inner
    else Form.comma <$> instantiate bindings (depth - 1) inner
  | .list [.symbol "backquote", inner] => Form.backquote <$> instantiate bindings (depth + 1) inner
  | .list items => .list <$> instantiateAll bindings depth items
  | .tuple items => .tuple <$> instantiateAll bindings depth items
  | .dotted items tail => do
    let items ← instantiateAll bindings depth items
    return .dotted items (← instantiate bindings depth tail)
  | atom => .ok atom

def instantiateAll (bindings : List (String × Form)) (depth : Nat) :
    List Form → Except ExpandError (List Form)
  | [] => .ok []
  | .list [.symbol "comma-at", inner] :: items =>
    if depth = 1 then do
      match ← lookup bindings inner with
      | .list spliced => return spliced ++ (← instantiateAll bindings depth items)
      | value => .error (.badSplice value)
    else do
      let item ← (Form.call "comma-at" [·]) <$> instantiate bindings (depth - 1) inner
      return item :: (← instantiateAll bindings depth items)
  | item :: items => do
    let item ← instantiate bindings depth item
    return item :: (← instantiateAll bindings depth items)

end

mutual

/-- Whether an argument is taken in a form at a depth. -/
def takes (depth : Nat) : Form → Bool
  | .list [.symbol "comma", inner] => depth = 1 || takes (depth - 1) inner
  | .list [.symbol "backquote", inner] => takes (depth + 1) inner
  | .list items => takesAny depth items
  | .tuple items => takesAny depth items
  | .dotted items tail => takesAny depth items || takes depth tail
  | _ => false

def takesAny (depth : Nat) : List Form → Bool
  | [] => false
  | .list [.symbol "comma-at", inner] :: items =>
    depth = 1 || takes (depth - 1) inner || takesAny depth items
  | item :: items => takes depth item || takesAny depth items

end

mutual

/-- Whether an argument is taken inside a splice that is kept. -/
def takesInSplice (depth : Nat) : Form → Bool
  | .list [.symbol "comma", inner] => depth ≠ 1 && takesInSplice (depth - 1) inner
  | .list [.symbol "backquote", inner] => takesInSplice (depth + 1) inner
  | .list items => anyTakesInSplice depth items
  | .tuple items => anyTakesInSplice depth items
  | .dotted items tail => anyTakesInSplice depth items || takesInSplice depth tail
  | _ => false

def anyTakesInSplice (depth : Nat) : List Form → Bool
  | [] => false
  | .list [.symbol "comma-at", inner] :: items =>
    (depth ≠ 1 && takes (depth - 1) inner) || anyTakesInSplice depth items
  | item :: items => takesInSplice depth item || anyTakesInSplice depth items

end

variable {bindings : List (String × Form)} {depth : Nat}

/-! ## Rules -/

section

variable {items : List Form} (hcomma : ∀ inner, items ≠ [.symbol "comma", inner])
  (hbackquote : ∀ inner, items ≠ [.symbol "backquote", inner])

include hcomma hbackquote

theorem instantiate_list : instantiate bindings depth (.list items) =
    .list <$> instantiateAll bindings depth items := by
  rw [instantiate]
  · exact hcomma
  · exact hbackquote

theorem takes_list : takes depth (.list items) = takesAny depth items := by
  rw [takes]
  · exact hcomma
  · exact hbackquote

theorem takesInSplice_list : takesInSplice depth (.list items) = anyTakesInSplice depth items := by
  rw [takesInSplice]
  · exact hcomma
  · exact hbackquote

end

section

variable {item : Form} (hitem : ∀ inner, item ≠ .list [.symbol "comma-at", inner])
  (items : List Form)

include hitem

theorem wrapped?_eq_none : item.wrapped? "comma-at" = none := by
  rw [Option.eq_none_iff_forall_ne_some]
  exact fun inner hinner => hitem inner (eq_of_wrapped? hinner)

theorem instantiateAll_item : instantiateAll bindings depth (item :: items) = (do
    let item ← instantiate bindings depth item
    return item :: (← instantiateAll bindings depth items)) := by
  rw [instantiateAll]
  exact hitem

theorem takesAny_item :
    takesAny depth (item :: items) = (takes depth item || takesAny depth items) := by
  rw [takesAny]
  exact hitem

theorem anyTakesInSplice_item : anyTakesInSplice depth (item :: items) =
    (takesInSplice depth item || anyTakesInSplice depth items) := by
  rw [anyTakesInSplice]
  exact hitem

end

/-- A splice that is kept is filled as the list it is. -/
theorem fill_splice (hdepth : depth ≠ 1) (inner : Form) :
    fill bindings depth (.list [.symbol "comma-at", inner]) =
      (call "comma-at" [·]) <$> fill bindings depth inner := by
  rw [fill_list (by simp) (by simp), fillAll_kept (.inr hdepth), fillAll_kept (.inr hdepth),
    fill_symbol, fillAll]
  cases fill bindings depth inner <;> rfl

theorem instantiate_symbol (name : String) :
    instantiate bindings depth (.symbol name) = .ok (.symbol name) := by
  rw [instantiate] <;> simp

theorem instantiate_literal {form : Form} (h : IsLiteral form) :
    instantiate bindings depth form = .ok form := by
  cases form with
  | integer | float | string | binary => rw [instantiate] <;> simp
  | symbol | list | dotted | tuple => cases h

theorem takes_literal {form : Form} (h : IsLiteral form) : takes depth form = false := by
  cases form with
  | integer | float | string | binary => rfl
  | symbol | list | dotted | tuple => cases h

theorem takesInSplice_literal {form : Form} (h : IsLiteral form) :
    takesInSplice depth form = false := by
  cases form with
  | integer | float | string | binary => rfl
  | symbol | list | dotted | tuple => cases h

/-! ## Forms in which nothing is taken -/

/-- A form stands for itself at a depth, and where it is filled at a greater one. -/
def Stays (bindings : List (String × Form)) (depth : Nat) (form : Form) : Prop :=
  instantiate bindings depth form = .ok form ∧
    ∀ deeper, depth ≤ deeper → fill bindings deeper form = .ok form

def StaysAll (bindings : List (String × Form)) (depth : Nat) (items : List Form) : Prop :=
  instantiateAll bindings depth items = .ok items ∧
    ∀ deeper, depth ≤ deeper → fillAll bindings deeper items = .ok items

/-- Where no argument is taken, none is taken deeper either. -/
theorem stays_of_not_takes (form : Form) : ∀ {depth : Nat}, 0 < depth → takes depth form = false →
    Stays bindings depth form := by
  refine @Template.induction
    (fun form => ∀ {depth : Nat}, 0 < depth → takes depth form = false → Stays bindings depth form)
    (fun items => ∀ {depth : Nat}, 0 < depth → takesAny depth items = false →
      StaysAll bindings depth items)
    ?symbol ?literal ?comma ?backquote ?list ?dotted ?tuple ?nil ?splice ?item form
  case symbol => exact fun name depth _ _ => ⟨instantiate_symbol name, fun _ _ => fill_symbol⟩
  case literal =>
    exact fun form hliteral depth _ _ =>
      ⟨instantiate_literal hliteral, fun _ _ => fill_literal hliteral⟩
  case comma =>
    intro inner ih depth hdepth h
    rw [takes, Bool.or_eq_false_iff, decide_eq_false_iff_not] at h
    obtain ⟨hinstantiate, hfill⟩ := ih (show 0 < depth - 1 by omega) h.2
    constructor
    · rw [instantiate, if_neg h.1, hinstantiate]
      rfl
    · intro deeper hdeeper
      rw [fill, if_pos (by omega), hfill (deeper - 1) (by omega)]
      rfl
  case backquote =>
    intro inner ih depth hdepth h
    rw [takes] at h
    obtain ⟨hinstantiate, hfill⟩ := ih (Nat.succ_pos depth) h
    constructor
    · rw [instantiate, hinstantiate]
      rfl
    · intro deeper hdeeper
      rw [fill, hfill (deeper + 1) (Nat.succ_le_succ hdeeper)]
      rfl
  case list =>
    intro items hcomma hbackquote ih depth hdepth h
    rw [takes_list hcomma hbackquote] at h
    obtain ⟨hinstantiate, hfill⟩ := ih hdepth h
    constructor
    · rw [instantiate_list hcomma hbackquote, hinstantiate]
      rfl
    · intro deeper hdeeper
      rw [fill_list hcomma hbackquote, hfill deeper hdeeper]
      rfl
  case dotted =>
    intro items tail ih ihTail depth hdepth h
    rw [takes, Bool.or_eq_false_iff] at h
    obtain ⟨hinstantiate, hfill⟩ := ih hdepth h.1
    constructor
    · rw [instantiate, hinstantiate, (ihTail hdepth h.2).1]
      rfl
    · intro deeper hdeeper
      rw [fill, hfill deeper hdeeper, (ihTail hdepth h.2).2 deeper hdeeper]
      rfl
  case tuple =>
    intro items ih depth hdepth h
    rw [takes] at h
    obtain ⟨hinstantiate, hfill⟩ := ih hdepth h
    constructor
    · rw [instantiate, hinstantiate]
      rfl
    · intro deeper hdeeper
      rw [fill, hfill deeper hdeeper]
      rfl
  case nil => exact fun _ _ => ⟨by rw [instantiateAll], fun _ _ => by rw [fillAll]⟩
  case splice =>
    intro inner items ih ihItems depth hdepth h
    rw [takesAny, Bool.or_eq_false_iff, Bool.or_eq_false_iff, decide_eq_false_iff_not] at h
    obtain ⟨⟨hkept, hinner⟩, hitems⟩ := h
    obtain ⟨hinstantiate, hfill⟩ := ih (show 0 < depth - 1 by omega) hinner
    constructor
    · rw [instantiateAll, if_neg hkept, hinstantiate, (ihItems hdepth hitems).1]
      rfl
    · intro deeper hdeeper
      rw [fillAll_kept (.inr (by omega)), fill_splice (by omega), hfill deeper (by omega),
        (ihItems hdepth hitems).2 deeper hdeeper]
      rfl
  case item =>
    intro item items hitem ih ihItems depth hdepth h
    rw [takesAny_item hitem, Bool.or_eq_false_iff] at h
    obtain ⟨hinstantiate, hfill⟩ := ih hdepth h.1
    constructor
    · rw [instantiateAll_item hitem, hinstantiate, (ihItems hdepth h.2).1]
      rfl
    · intro deeper hdeeper
      rw [fillAll_kept (.inl (wrapped?_eq_none hitem)), hfill deeper hdeeper,
        (ihItems hdepth h.2).2 deeper hdeeper]
      rfl

/-! ## Agreement -/

/-- Filling follows the reading by depth where no argument is taken inside a kept splice. -/
theorem fill_eq_instantiate_of (form : Form) : ∀ {depth : Nat}, 0 < depth →
    takesInSplice depth form = false →
    fill bindings depth form = instantiate bindings depth form := by
  refine @Template.induction
    (fun form => ∀ {depth : Nat}, 0 < depth → takesInSplice depth form = false →
      fill bindings depth form = instantiate bindings depth form)
    (fun items => ∀ {depth : Nat}, 0 < depth → anyTakesInSplice depth items = false →
      fillAll bindings depth items = instantiateAll bindings depth items)
    ?symbol ?literal ?comma ?backquote ?list ?dotted ?tuple ?nil ?splice ?item form
  case symbol => exact fun name depth _ _ => fill_symbol.trans (instantiate_symbol name).symm
  case literal =>
    exact fun form hliteral depth _ _ =>
      (fill_literal hliteral).trans (instantiate_literal hliteral).symm
  case comma =>
    intro inner ih depth hdepth h
    rw [fill, instantiate]
    by_cases hone : depth = 1
    · rw [if_neg (by omega), if_pos hone]
    · have hinner : takesInSplice (depth - 1) inner = false := by simpa [takesInSplice, hone] using h
      rw [if_pos (by omega), if_neg hone, ih (by omega) hinner]
  case backquote =>
    intro inner ih depth hdepth h
    rw [takesInSplice] at h
    rw [fill, instantiate, ih (Nat.succ_pos depth) h]
  case list =>
    intro items hcomma hbackquote ih depth hdepth h
    rw [takesInSplice_list hcomma hbackquote] at h
    rw [fill_list hcomma hbackquote, instantiate_list hcomma hbackquote, ih hdepth h]
  case dotted =>
    intro items tail ih ihTail depth hdepth h
    rw [takesInSplice, Bool.or_eq_false_iff] at h
    rw [fill, instantiate, ih hdepth h.1, ihTail hdepth h.2]
  case tuple =>
    intro items ih depth hdepth h
    rw [takesInSplice] at h
    rw [fill, instantiate, ih hdepth h]
  case nil => exact fun _ _ => by rw [fillAll, instantiateAll]
  case splice =>
    intro inner items _ ihItems depth hdepth h
    rw [anyTakesInSplice, Bool.or_eq_false_iff] at h
    by_cases hone : depth = 1
    · subst hone
      have hitems : fillAll bindings 1 items = instantiateAll bindings 1 items := ihItems hdepth h.2
      cases hvalue : lookup bindings inner with
      | error error =>
        simp [fillAll, instantiateAll, wrapped?_wrap, hvalue, bind, Except.bind]
      | ok value =>
        cases value <;>
          simp [fillAll, instantiateAll, wrapped?_wrap, hvalue, hitems, bind, Except.bind]
    · have hinner : takes (depth - 1) inner = false := by simpa [hone] using h.1
      obtain ⟨hinstantiate, hfill⟩ :=
        @stays_of_not_takes bindings inner _ (show 0 < depth - 1 by omega) hinner
      rw [fillAll_kept (.inr hone), fill_splice hone, hfill depth (Nat.sub_le depth 1),
        ihItems hdepth h.2, instantiateAll, if_neg hone, hinstantiate]
  case item =>
    intro item items hitem ih ihItems depth hdepth h
    rw [anyTakesInSplice_item hitem, Bool.or_eq_false_iff] at h
    rw [fillAll_kept (.inl (wrapped?_eq_none hitem)), instantiateAll_item hitem, ih hdepth h.1,
      ihItems hdepth h.2]

end Template

end HeaderForms
