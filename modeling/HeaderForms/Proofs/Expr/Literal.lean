-- SUMMARY: Constant data is found again from its form, up to the notation of characters.
import HeaderForms.Proofs.Expr.Conversion

/-!
# Forms of constant data

The form of constant data holds all of it: the data is read off its form again. Only a character is
not told from the integer that is its code point. So two expressions that have the same form as
data differ in the notation of characters and nowhere else; text, lists, improper lists, tuples,
binaries, atoms and numbers are kept apart however deep they are.
-/

namespace HeaderForms

/-! ## Bytes -/

def BinElement.ofByte (byte : UInt8) : BinElement :=
  .mk (.integer byte.toNat) none []

theorem BinElement.eq_ofByte {element : BinElement} {byte : UInt8}
    (h : Expr.byte? element = some byte) : element = .ofByte byte := by
  unfold Expr.byte? at h
  split at h
  case h_2 => cases h
  case h_1 value =>
    split at h
    case isFalse => cases h
    case isTrue hrange =>
      cases h
      simp only [Bool.and_eq_true, decide_eq_true_eq] at hrange
      obtain ⟨n, rfl⟩ := Int.eq_ofNat_of_zero_le hrange.1
      have hlt : n < 256 := by omega
      simp [ofByte, Nat.mod_eq_of_lt hlt]

namespace Expr

theorem eq_map_ofByte {elements : List BinElement} {bytes : List UInt8}
    (h : elements.mapM byte? = some bytes) : elements = bytes.map .ofByte := by
  induction elements generalizing bytes with
  | nil =>
    cases h
    rfl
  | cons element elements ih =>
    rw [List.mapM_cons] at h
    obtain ⟨byte, hbyte, h⟩ := Option.bind_eq_some_iff.1 h
    obtain ⟨others, hothers, h⟩ := Option.bind_eq_some_iff.1 h
    cases h
    rw [List.map_cons, ← ih hothers, ← BinElement.eq_ofByte hbyte]

/-! ## Characters as integers -/

mutual

/-- The data with code points in the place of characters. Lists and tuples are the only data with
other data inside. -/
def codePoints : Expr → Expr
  | .char value => .integer value.toNat
  | .cons head tail => .cons (codePoints head) (codePoints tail)
  | .tuple items => .tuple (allCodePoints items)
  | other => other

def allCodePoints : List Expr → List Expr
  | [] => []
  | expr :: exprs => codePoints expr :: allCodePoints exprs

end

theorem allCodePoints_eq_map (exprs : List Expr) : allCodePoints exprs = exprs.map codePoints := by
  induction exprs with
  | nil => rfl
  | cons expr exprs ih => rw [allCodePoints, ih, List.map_cons]

/-- No character is left in constant data, however deep. -/
theorem IsConstant.ne_char {expr : Expr} (h : expr.IsConstant) :
    ∀ inner : Expr, inner.Within expr.codePoints → ∀ value, inner ≠ .char value := by
  induction h with
  | atom | integer | float | char | string | nil =>
    refine forall_within_iff.2 ⟨?_, List.forall_mem_nil _⟩
    rintro value ⟨⟩
  | cons _ _ ihhead ihtail =>
    refine forall_within_iff.2
      ⟨?_, List.forall_mem_cons.2 ⟨ihhead, List.forall_mem_singleton.2 ihtail⟩⟩
    rintro value ⟨⟩
  | tuple _ ih =>
    refine forall_within_iff.2 ⟨?_, ?_⟩
    · rintro value ⟨⟩
    · rw [codePoints, parts, allCodePoints_eq_map]
      exact List.forall_mem_map.2 ih
  | binary hbytes =>
    refine forall_within_iff.2 ⟨?_, List.forall_mem_flatMap.2 fun element helement => ?_⟩
    · rintro value ⟨⟩
    · obtain ⟨byte, hbyte⟩ := BinElement.isByte_iff.1 (hbytes element helement)
      rw [BinElement.eq_ofByte hbyte]
      refine List.forall_mem_singleton.2 (forall_within_iff.2 ⟨?_, List.forall_mem_nil _⟩)
      rintro value ⟨⟩

mutual

/-- A character and its code point have the same form. -/
theorem literalSpine_codePoints : ∀ expr : Expr, expr.codePoints.literalSpine = expr.literalSpine
  | .char _ => rfl
  | .cons head tail => by
    rw [codePoints, literalSpine, literalSpine, literalSpine_codePoints head,
      literalSpine_codePoints tail]
  | .tuple items => by rw [codePoints, literalSpine, literalSpine, literals_allCodePoints items]
  | .nil | .atom _ | .integer _ | .float _ | .string _ | .binary _ | .var _ | .map _
  | .mapUpdate .. | .recordNew .. | .recordUpdate .. | .recordField .. | .recordIndex ..
  | .binaryOp .. | .unaryOp .. | .match_ .. | .call .. | .remoteCall .. | .block _ | .case_ ..
  | .if_ _ | .fun_ _ | .funRef .. | .catch_ _ | .comprehension .. => rfl

theorem literals_allCodePoints : ∀ exprs : List Expr,
    literals (allCodePoints exprs) = literals exprs
  | [] => rfl
  | expr :: exprs => by
    rw [allCodePoints, literals, literals, literalSpine_codePoints expr,
      literals_allCodePoints exprs]

end

theorem toLiteral_codePoints (expr : Expr) : expr.codePoints.toLiteral = expr.toLiteral := by
  rw [toLiteral, toLiteral, literalSpine_codePoints]

end Expr

/-! ## The data of a form -/

namespace Form

mutual

/-- The constant data that has this form. -/
def constant : Form → Expr
  | .symbol name => .atom name
  | .integer value => .integer value
  | .float value => .float value
  | .string text => .string text
  | .list items => (constants items).foldr .cons .nil
  | .dotted items tail => (constants items).foldr .cons (constant tail)
  | .tuple items => .tuple (constants items)
  | .binary bytes => .binary (bytes.map .ofByte)

def constants : List Form → List Expr
  | [] => []
  | form :: forms => constant form :: constants forms

end

end Form

/-- The chain of cells with the data of a spine. -/
def Spine.constant (spine : Spine) : Expr :=
  (Form.constants spine.items).foldr .cons ((spine.tail.map Form.constant).getD .nil)

/-- A spine without items is its end, which is no list then, so no form stands for two spines. -/
theorem Spine.constant_literal (spine : Spine) : spine.literal.constant = spine.constant := by
  obtain ⟨items, tail⟩ := spine
  cases tail with
  | none => rfl
  | some form => cases items <;> rfl

namespace Expr

mutual

theorem constant_of_literalSpine : ∀ (expr : Expr) {spine : Spine},
    expr.literalSpine = .ok spine → spine.constant = expr.codePoints
  | .nil, _, h | .atom _, _, h | .integer _, _, h | .float _, _, h | .string _, _, h
  | .char _, _, h => by
    cases h
    rfl
  | .cons head tail, _, h => by
    obtain ⟨first, hfirst, h⟩ := bind_eq_ok.1 h
    obtain ⟨rest, hrest, h⟩ := bind_eq_ok.1 h
    cases h
    rw [codePoints, ← constant_of_literalSpine head hfirst, ← constant_of_literalSpine tail hrest,
      ← Spine.constant_literal first]
    rfl
  | .tuple items, _, h => by
    obtain ⟨forms, hforms, h⟩ := bind_eq_ok.1 h
    cases h
    rw [codePoints, ← constants_of_literals items hforms]
    rfl
  | .binary elements, _, h => by
    rw [literalSpine] at h
    split at h
    case h_1 bytes hbytes =>
      cases h
      exact congrArg Expr.binary (eq_map_ofByte hbytes).symm
    case h_2 => cases h
  | .var _, _, h | .map _, _, h | .mapUpdate .., _, h | .recordNew .., _, h
  | .recordUpdate .., _, h | .recordField .., _, h | .recordIndex .., _, h | .binaryOp .., _, h
  | .unaryOp .., _, h | .match_ .., _, h | .call .., _, h | .remoteCall .., _, h | .block _, _, h
  | .case_ .., _, h | .if_ _, _, h | .fun_ _, _, h | .funRef .., _, h | .catch_ _, _, h
  | .comprehension .., _, h => nomatch h

theorem constants_of_literals : ∀ (exprs : List Expr) {forms : List Form},
    literals exprs = .ok forms → Form.constants forms = allCodePoints exprs
  | [], _, h => by
    cases h
    rfl
  | expr :: exprs, _, h => by
    obtain ⟨first, hfirst, h⟩ := bind_eq_ok.1 h
    obtain ⟨rest, hrest, h⟩ := bind_eq_ok.1 h
    cases h
    rw [allCodePoints, ← constant_of_literalSpine expr hfirst, ← constants_of_literals exprs hrest,
      ← Spine.constant_literal first]
    rfl

end

/-- Constant data is read off its form. -/
theorem constant_of_toLiteral {expr : Expr} {form : Form} (h : expr.toLiteral = .ok form) :
    form.constant = expr.codePoints := by
  obtain ⟨spine, hspine, h⟩ := bind_eq_ok.1 h
  cases h
  rw [Spine.constant_literal, constant_of_literalSpine expr hspine]

/-- Two expressions have the same form as constant data exactly when they are the same data, up to
characters that are written as integers. -/
theorem toLiteral_eq_iff {first second : Expr} {form form' : Form}
    (h : first.toLiteral = .ok form) (h' : second.toLiteral = .ok form') :
    form = form' ↔ first.codePoints = second.codePoints := by
  constructor
  · rintro rfl
    rw [← constant_of_toLiteral h, constant_of_toLiteral h']
  · intro heq
    have hforms : Except.ok form = (Except.ok form' : Converted Form) := by
      rw [← h, ← h', ← toLiteral_codePoints first, heq, toLiteral_codePoints]
    exact Except.ok.inj hforms

/-- The data `{vsn, [1, "a" | End], <<1, 255>>}`. -/
def sampleData (ending : Expr) : Expr :=
  .tuple [.atom "vsn", .cons (.integer 1) (.cons (.string "a") ending),
    .binary [.mk (.integer 1) none [], .mk (.integer 255) none []]]

def sampleForm (ending : Form) : Form :=
  .tuple [.symbol "vsn", ending, .binary [1, 255]]

/-- A character at the end of an improper list is its code point, and a list is not a longer list of
empty lists. -/
theorem toLiteral_eq_iff_sample :
    (sampleData (.char 'b')).toLiteral = (sampleData (.integer 98)).toLiteral ∧
      (sampleData (.char 'b')).codePoints = (sampleData (.integer 98)).codePoints ∧
      (sampleData .nil).codePoints ≠ (sampleData (.cons .nil .nil)).codePoints := by
  have himproper : ∀ ending : Expr, ending = .char 'b' ∨ ending = .integer 98 →
      (sampleData ending).toLiteral =
        .ok (sampleForm (.dotted [.integer 1, .string "a"] (.integer 98))) := by
    rintro _ (rfl | rfl) <;> rfl
  have hproper : (sampleData .nil).toLiteral =
      .ok (sampleForm (.list [.integer 1, .string "a"])) := by rfl
  have hlonger : (sampleData (.cons .nil .nil)).toLiteral =
      .ok (sampleForm (.list [.integer 1, .string "a", .list []])) := by rfl
  have hchar := himproper _ (.inl rfl)
  have hinteger := himproper _ (.inr rfl)
  refine ⟨hchar.trans hinteger.symm, (toLiteral_eq_iff hchar hinteger).1 rfl, fun h => ?_⟩
  have hforms := (toLiteral_eq_iff hproper hlonger).2 h
  simp [sampleForm] at hforms

end Expr

end HeaderForms
