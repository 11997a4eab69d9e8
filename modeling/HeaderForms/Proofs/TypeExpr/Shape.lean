-- SUMMARY: The shape of the types that the grammar gives.
import HeaderForms.TypeExpr.Parser
import HeaderForms.Proofs.Token.Parser

/-!
# The shape of types

A union is made of the alternatives between bars, and a single alternative stands for itself. So a
union that the grammar gives has more than one of them, all the way down, and this is the only
condition on the constructs of the types that tokens hold. Numbers in them are those of the tokens,
up to their signs, and the codes of characters.
-/

namespace HeaderForms

/-! ## Parts -/

def MapFieldType.parts : MapFieldType → List TypeExpr
  | .mk key value _ => [key, value]

def FieldType.type : FieldType → TypeExpr
  | .mk _ type => type

/-! ## Shapes -/

/-- A number of bits in a bit string, 0 where no segment gives one. -/
def GoodBits (good : Lexeme → Prop) (bits : Int) : Prop :=
  bits = 0 ∨ good (.integer bits.natAbs)

/-- The type has the shape that the grammar gives it, and the numbers in it are good. -/
inductive TypeExpr.Shaped (good : Lexeme → Prop) : TypeExpr → Prop where
  | var {name : String} : Shaped good (.var name)
  | atom {name : String} : Shaped good (.atom name)
  | integer {value : Int} (hgood : good (.integer value.natAbs) ∨ ∃ char : Char, value = char.toNat) :
    Shaped good (.integer value)
  | nil : Shaped good .nil
  | named {module : Option String} {name : String} {args : List TypeExpr}
    (hargs : ∀ arg ∈ args, Shaped good arg) : Shaped good (.named module name args)
  | union {alternatives : List TypeExpr} (hlength : 2 ≤ alternatives.length)
    (halternatives : ∀ type ∈ alternatives, Shaped good type) : Shaped good (.union alternatives)
  | range {low high : TypeExpr} (hlow : Shaped good low) (hhigh : Shaped good high) :
    Shaped good (.range low high)
  | tuple {items : List TypeExpr} (hitems : ∀ item ∈ items, Shaped good item) :
    Shaped good (.tuple items)
  | list {item : TypeExpr} (hitem : Shaped good item) : Shaped good (.list item)
  | nonEmptyList {item : TypeExpr} (hitem : Shaped good item) : Shaped good (.nonEmptyList item)
  | map {fields : List MapFieldType}
    (hparts : ∀ field ∈ fields, ∀ part ∈ field.parts, Shaped good part) :
    Shaped good (.map fields)
  | anyFun : Shaped good .anyFun
  | anyArgsFun {result : TypeExpr} (hresult : Shaped good result) : Shaped good (.anyArgsFun result)
  | fun_ {args : List TypeExpr} {result : TypeExpr} (hargs : ∀ arg ∈ args, Shaped good arg)
    (hresult : Shaped good result) : Shaped good (.fun_ args result)
  | record {name : String} {fields : List FieldType}
    (htypes : ∀ field ∈ fields, Shaped good field.type) :
    Shaped good (.record name fields)
  | annotated {name : String} {type : TypeExpr} (htype : Shaped good type) :
    Shaped good (.annotated name type)
  | bitstring {base unit : Int} (hbase : GoodBits good base) (hunit : GoodBits good unit) :
    Shaped good (.bitstring base unit)

namespace Parser

open TypeExpr (Shaped)

variable {good : Lexeme → Prop} {nested : Parser TypeExpr} {limit : Nat}

/-! ## Parts -/

theorem keeps_typeArguments (h : Keeps good nested (Shaped good)) :
    Keeps good (typeArguments limit nested) (fun args => ∀ arg ∈ args, arg.Shaped good) :=
  keeps_expectPunct.bind fun _ _ => keeps_delimited h limit

theorem keeps_mapFieldType (h : Keeps good nested (Shaped good)) :
    Keeps good (mapFieldType nested) (fun field => ∀ part ∈ field.parts, part.Shaped good) := by
  refine h.bind fun key hkey => (keeps_take fun _ => rfl).bind fun exact _ => ?_
  exact h.bind fun value hvalue =>
    keeps_pure (List.forall_mem_cons.2 ⟨hkey, List.forall_mem_singleton.2 hvalue⟩)

theorem keeps_fieldType (h : Keeps good nested (Shaped good)) :
    Keeps good (fieldType nested) (fun field => field.type.Shaped good) :=
  keeps_expectAtom.bind fun _ _ => keeps_expectPunct.bind fun _ _ => h.bind fun _ htype =>
    keeps_pure htype

theorem keeps_namedRest (h : Keeps good nested (Shaped good)) (name : String) :
    Keeps good (namedRest limit nested name) (Shaped good) := by
  refine keeps_atPunct.bind fun isApplied _ => ?_
  cases isApplied with
  | true => exact (keeps_typeArguments h).bind fun args hargs => keeps_pure (.named hargs)
  | false =>
    refine keeps_eatPunct.bind fun isRemote _ => ?_
    cases isRemote with
    | true =>
      refine keeps_expectAtom.bind fun remote _ => ?_
      exact (keeps_typeArguments h).bind fun args hargs => keeps_pure (.named hargs)
    | false => exact keeps_pure .atom

theorem keeps_listTypeRest (h : Keeps good nested (Shaped good)) :
    Keeps good (listTypeRest nested) (Shaped good) := by
  refine keeps_eatPunct.bind fun isEmpty _ => ?_
  cases isEmpty with
  | true => exact keeps_pure .nil
  | false =>
    refine h.bind fun item hitem => keeps_eatPunct.bind fun isNonEmpty _ => ?_
    cases isNonEmpty with
    | true =>
      exact keeps_expectPunct.bind fun _ _ => keeps_expectPunct.bind fun _ _ =>
        keeps_pure (.nonEmptyList hitem)
    | false => exact keeps_expectPunct.bind fun _ _ => keeps_pure (.list hitem)

theorem keeps_hashTypeRest (h : Keeps good nested (Shaped good)) :
    Keeps good (hashTypeRest limit nested) (Shaped good) := by
  refine keeps_eatPunct.bind fun isMap _ => ?_
  cases isMap with
  | true =>
    exact (keeps_delimited (keeps_mapFieldType h) limit).bind fun fields hfields =>
      keeps_pure (.map hfields)
  | false =>
    refine keeps_expectAtom.bind fun name _ => keeps_expectPunct.bind fun _ _ => ?_
    exact (keeps_delimited (keeps_fieldType h) limit).bind fun fields hfields =>
      keeps_pure (.record hfields)

theorem keeps_result (h : Keeps good nested (Shaped good)) :
    Keeps good (funTypeRest.result nested) (Shaped good) :=
  keeps_expectPunct.bind fun _ _ => h.bind fun _ htype => keeps_expectPunct.bind fun _ _ =>
    keeps_pure htype

theorem keeps_funTypeRest (h : Keeps good nested (Shaped good)) :
    Keeps good (funTypeRest limit nested) (Shaped good) := by
  refine keeps_expectPunct.bind fun _ _ => keeps_eatPunct.bind fun isAny _ => ?_
  cases isAny with
  | true => exact keeps_pure .anyFun
  | false =>
    refine keeps_expectPunct.bind fun _ _ => keeps_eatPunct.bind fun isAnyArgs _ => ?_
    cases isAnyArgs with
    | true =>
      exact keeps_expectPunct.bind fun _ _ => (keeps_result h).map fun _ hresult =>
        .anyArgsFun hresult
    | false =>
      exact (keeps_delimited h limit).bind fun args hargs => (keeps_result h).map fun _ hresult =>
        .fun_ hargs hresult

def BitSegment.bits : BitSegment → Int
  | .base bits | .unit bits => bits

theorem keeps_bitSegment :
    Keeps good bitSegment (fun segment => good (.integer segment.bits.natAbs)) := by
  refine keeps_expectVar.bind fun _ _ => keeps_expectPunct.bind fun _ _ => ?_
  refine (keeps_take? fun _ => rfl).bind fun unit _ => ?_
  cases unit with
  | some _ =>
    exact keeps_expectPunct.bind fun _ _ => keeps_expectInteger.map fun _ hbits => hbits
  | none => exact keeps_expectInteger.map fun _ hbits => hbits

theorem shaped_bitstring {segments : List BitSegment}
    (h : ∀ segment ∈ segments, good (.integer segment.bits.natAbs)) :
    (bitstring segments).Shaped good := by
  unfold bitstring
  split
  case h_1 base unit hbits =>
    have hgood : GoodBits good (base, unit).1 ∧ GoodBits good (base, unit).2 := by
      rw [← hbits]
      refine List.foldlRecOn segments _
        (motive := fun bits : Int × Int => GoodBits good bits.1 ∧ GoodBits good bits.2)
        ⟨.inl rfl, .inl rfl⟩ fun found hfound segment hsegment => ?_
      cases segment with
      | base bits => exact ⟨.inr (h _ hsegment), hfound.2⟩
      | unit bits => exact ⟨hfound.1, .inr (h _ hsegment)⟩
    exact .bitstring hgood.1 hgood.2

theorem keeps_bitstringRest (hlimit : 0 < limit) :
    Keeps good (bitstringRest limit) (Shaped good) := by
  refine keeps_eatPunct.bind fun isEmpty _ => ?_
  cases isEmpty with
  | true => exact keeps_pure (.bitstring (.inl rfl) (.inl rfl))
  | false =>
    exact (keeps_separated keeps_bitSegment hlimit).bind fun segments hsegments =>
      keeps_expectPunct.bind fun _ _ => keeps_pure (shaped_bitstring hsegments.1)

/-! ## Types -/

theorem keeps_primaryType (hlimit : 0 < limit) (h : Keeps good nested (Shaped good)) :
    Keeps good (primaryType limit nested) (Shaped good) := by
  have hinteger : Keeps good (.integer <$> expectInteger) (Shaped good) :=
    keeps_expectInteger.map fun _ hgood => .integer (.inl hgood)
  intro tokens
  refine keepsFrom_peek ?_
  cases tokens with
  | nil => exact keeps_unexpected []
  | cons token tokens =>
    obtain ⟨lexeme, line⟩ := token
    have htake : lexeme.Fits → KeepsFrom good (⟨lexeme, line⟩ :: tokens) (skip 1)
        (fun _ => good lexeme) := keepsFrom_skip rfl
    cases lexeme with
    | var name => exact (htake fun _ => nofun).bind fun _ _ => keeps_pure .var
    | integer value => exact hinteger _
    | char value =>
      exact (htake fun _ => nofun).bind fun _ _ => keeps_pure (.integer (.inr ⟨value, rfl⟩))
    | atom name => exact (htake fun _ => nofun).bind fun _ _ => keeps_namedRest h name
    | punct mark =>
      have hskip := htake fun _ => nofun
      cases mark with
      | minus => exact hinteger _
      | openParen =>
        exact hskip.bind fun _ _ => h.bind fun _ htype => keeps_expectPunct.bind fun _ _ =>
          keeps_pure htype
      | openBracket => exact hskip.bind fun _ _ => keeps_listTypeRest h
      | openBrace =>
        exact hskip.bind fun _ _ => (keeps_delimited h limit).bind fun items hitems =>
          keeps_pure (.tuple hitems)
      | hash => exact hskip.bind fun _ _ => keeps_hashTypeRest h
      | openBinary => exact hskip.bind fun _ _ => keeps_bitstringRest hlimit
      | _ => exact keeps_unexpected _
    | keyword word =>
      cases word with
      | fun_ => exact (htake fun _ => nofun).bind fun _ _ => keeps_funTypeRest h
      | _ => exact keeps_unexpected _
    | _ => exact keeps_unexpected _

theorem keeps_alternativeType (hlimit : 0 < limit) (h : Keeps good nested (Shaped good)) :
    Keeps good (alternativeType limit nested) (Shaped good) := by
  have hprimary := keeps_primaryType hlimit h
  have hrange : Keeps good (do
      let low ← primaryType limit nested
      if ← eatPunct .range then return TypeExpr.range low (← primaryType limit nested)
      return low) (Shaped good) := by
    refine hprimary.bind fun low hlow => keeps_eatPunct.bind fun isRange _ => ?_
    cases isRange with
    | true => exact hprimary.bind fun high hhigh => keeps_pure (.range hlow hhigh)
    | false => exact keeps_pure hlow
  intro tokens
  refine keepsFrom_peekTwo ?_
  split
  case h_1 name hahead =>
    have hskip : KeepsFrom good tokens (skip 2) (fun _ => True) :=
      keepsFrom_skipTwo hahead (fun _ => nofun) fun _ => nofun
    exact hskip.bind fun _ _ => h.bind fun _ htype => keeps_pure (.annotated htype)
  case h_2 => exact hrange tokens

theorem shaped_union {types : List TypeExpr} (h : ∀ type ∈ types, type.Shaped good)
    (hne : types ≠ []) : (union types).Shaped good := by
  match types with
  | [] => exact absurd rfl hne
  | [type] => exact h type List.mem_cons_self
  | _ :: _ :: _ => exact .union (by simp) h

theorem keeps_typeWithin (limit : Nat) : Keeps good (typeWithin limit) (Shaped good) := by
  induction limit with
  | zero => exact keeps_unexpected
  | succ limit ih =>
    have halternative : Keeps good (alternativeType (limit + 1) (typeWithin limit)) (Shaped good) :=
      keeps_alternativeType (Nat.succ_pos limit) ih
    exact (keeps_separated halternative (Nat.succ_pos limit)).map fun types htypes =>
      shaped_union htypes.1 htypes.2

end Parser

/-- Every type that tokens hold has its shape. -/
theorem TypeExpr.shaped_of_typeWithin {limit : Nat} {tokens rest : List Token} {type : TypeExpr}
    (h : Parser.typeWithin limit tokens = .ok (type, rest)) : type.Shaped fun _ => True :=
  (Parser.keeps_typeWithin limit tokens (fun _ _ => trivial) h).1

end HeaderForms
