-- SUMMARY: Conversions that succeed, and what the others fail with.
import HeaderForms.Expr.ToForm

/-!
# Conversions that succeed

A conversion gives a form or says why there is none. Conversions are put one behind the other, so
the whole of them succeeds when each does, and what the earlier ones give decides nothing but the
form. Where it fails, it fails with the error of one of them.
-/

namespace HeaderForms

def Converts {α : Type} (converted : Converted α) : Prop :=
  ∃ value, converted = .ok value

section Converts

variable {α β : Type} {converted : Converted α}

@[simp] theorem converts_ok {value : α} : Converts (.ok value) :=
  ⟨value, rfl⟩

@[simp] theorem converts_pure {value : α} : Converts (pure value) :=
  ⟨value, rfl⟩

@[simp] theorem not_converts_error {error : ConvertError} :
    ¬ Converts (.error error : Converted α) := by
  rintro ⟨value, h⟩
  cases h

@[simp] theorem exists_eq_ok : (∃ value, converted = .ok value) ↔ Converts converted :=
  Iff.rfl

theorem bind_eq_ok {next : α → Converted β} {result : β} :
    (converted >>= next) = .ok result ↔ ∃ value, converted = .ok value ∧ next value = .ok result := by
  cases converted with
  | error error => exact iff_of_false nofun fun ⟨_, h, _⟩ => nomatch h
  | ok value =>
    constructor
    · exact fun h => ⟨value, rfl, h⟩
    · rintro ⟨_, ⟨⟩, h⟩
      exact h

@[simp] theorem converts_bind {next : α → Converted β} :
    Converts (converted >>= next) ↔ ∃ value, converted = .ok value ∧ Converts (next value) := by
  simp only [Converts, bind_eq_ok]
  exact ⟨fun ⟨result, value, hvalue, h⟩ => ⟨value, hvalue, result, h⟩,
    fun ⟨value, hvalue, result, h⟩ => ⟨result, value, hvalue, h⟩⟩

@[simp] theorem converts_map {f : α → β} : Converts (f <$> converted) ↔ Converts converted := by
  cases converted with
  | error error => exact iff_of_false not_converts_error not_converts_error
  | ok value => exact iff_of_true converts_ok converts_ok

theorem converts_mapM {convert : α → Converted β} {items : List α} :
    Converts (items.mapM convert) ↔ ∀ item ∈ items, Converts (convert item) := by
  induction items with
  | nil => simp
  | cons item items ih => simp [List.mapM_cons, ih]

end Converts

/-- Such errors are all that the conversion can fail with. -/
def FailsWith {α : Type} (errors : ConvertError → Prop) (converted : Converted α) : Prop :=
  ∀ error, converted = .error error → errors error

section FailsWith

variable {α β : Type} {errors : ConvertError → Prop} {converted : Converted α}

theorem FailsWith.mono {errors' : ConvertError → Prop} (h : FailsWith errors converted)
    (herrors : ∀ error, errors error → errors' error) : FailsWith errors' converted :=
  fun error herror => herrors error (h error herror)

@[simp] theorem failsWith_ok {value : α} : FailsWith errors (.ok value) := by
  intro error h
  cases h

@[simp] theorem failsWith_pure {value : α} : FailsWith errors (pure value : Converted α) :=
  failsWith_ok

@[simp] theorem failsWith_error {error : ConvertError} :
    FailsWith errors (.error error : Converted α) ↔ errors error := by
  constructor
  · exact fun h => h error rfl
  · rintro h _ ⟨⟩
    exact h

@[simp] theorem failsWith_bind {next : α → Converted β} :
    FailsWith errors (converted >>= next) ↔
      FailsWith errors converted ∧ ∀ value, converted = .ok value → FailsWith errors (next value) := by
  cases converted with
  | error error =>
    constructor
    · exact fun h => ⟨failsWith_error.2 (h error rfl), fun _ hok => nomatch hok⟩
    · exact fun h => failsWith_error.2 (h.1 error rfl)
  | ok value =>
    constructor
    · exact fun h => ⟨failsWith_ok, fun _ hok => Except.ok.inj hok ▸ h⟩
    · exact fun h => h.2 value rfl

@[simp] theorem failsWith_map {f : α → β} :
    FailsWith errors (f <$> converted) ↔ FailsWith errors converted := by
  cases converted with
  | error error => exact failsWith_error.trans failsWith_error.symm
  | ok value => exact iff_of_true failsWith_ok failsWith_ok

theorem failsWith_mapM {convert : α → Converted β} {items : List α}
    (h : ∀ item ∈ items, FailsWith errors (convert item)) :
    FailsWith errors (items.mapM convert) := by
  induction items with
  | nil => simp
  | cons item items ih =>
    obtain ⟨hitem, hitems⟩ := List.forall_mem_cons.1 h
    simp [List.mapM_cons, hitem, ih hitems]

end FailsWith

end HeaderForms
