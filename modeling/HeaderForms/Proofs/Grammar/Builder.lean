-- SUMMARY: What forms are built from the pairs of a text, and which literals the pairs hold.
import Mathlib.Data.List.Forall2
import HeaderForms.Form.Reader
import HeaderForms.Proofs.Grammar.Basic

/-!
# Building forms from pairs

The builder takes the pairs of an accepted text apart by their rules. It has an answer for pairs
that no accepted text leaves: a pair that lacks the one it should hold, and a rule that is no form.
The literals of a pair are told without the builder.
-/

namespace HeaderForms.Grammar

/-! ## Building -/

inductive BuildError where
  | missingForm (span : Span)
  | unexpectedRule (rule : Rule) (span : Span)
  | read (error : ReadError)
deriving DecidableEq

/-- The error for a literal without a value in the text `whole`. -/
def invalid (whole : List Char) (fault : LiteralKind × Literal) : ReadError :=
  .invalidLiteral fault.1 (String.ofList fault.2.text) (Reader.Literal.span whole fault.2)

def located (whole : List Char) (fault : LiteralKind × Literal) : BuildError :=
  .read (invalid whole fault)

namespace Pair

def literal (pair : Pair) : Literal :=
  ⟨pair.text, pair.after⟩

/-- The value of the literal that a pair is. -/
def valued (whole : List Char) (kind : LiteralKind) (value? : List Char → Option α)
    (pair : Pair) : Except BuildError α :=
  (Datum.valued kind pair.literal value?).mapError (located whole)

/-- The text of the first pair inside another with the span `span`. -/
def firstText (span : Span) : List Pair → Except BuildError (List Char)
  | [] => .error (.missingForm span)
  | first :: _ => .ok first.text

mutual

def build (whole : List Char) : Pair → Except BuildError Form
  | mk rule text after children =>
    let span := Reader.Literal.span whole ⟨text, after⟩
    match rule with
    | .quoted => return Form.call "quote" [← buildFirst whole span children]
    | .backquoted => return Form.call "backquote" [← buildFirst whole span children]
    | .comma => return Form.call "comma" [← buildFirst whole span children]
    | .commaAt => return Form.call "comma-at" [← buildFirst whole span children]
    | .list => do
      match ← buildItems whole span children with
      | (items, some tail) => return .dotted items tail
      | (items, none) => return .list items
    | .tuple => return .tuple (← buildAll whole children)
    | .binary => return .binary (← children.mapM (valued whole .byte Numeral.byte?))
    | .string => return .string (String.ofList (Reader.unescapeString (← firstText span children)))
    | .integer => return .integer (← valued whole .integer Numeral.int64? (mk rule text after []))
    | .float => return .float (← valued whole .float Float64.parse? (mk rule text after []))
    | .barSymbol =>
      return .symbol (String.ofList (Reader.unescapeSymbol (← firstText span children)))
    | .symbol => .ok (.symbol (String.ofList text))
    | rule => .error (.unexpectedRule rule span)

/-- The form of the first pair inside another with the span `span`. -/
def buildFirst (whole : List Char) (span : Span) : List Pair → Except BuildError Form
  | [] => .error (.missingForm span)
  | first :: _ => build whole first

def buildAll (whole : List Char) : List Pair → Except BuildError (List Form)
  | [] => .ok []
  | pair :: pairs => do
    let form ← build whole pair
    return form :: (← buildAll whole pairs)

/-- The items of a list with the span `span`, and its tail. Of several tails the last is taken. -/
def buildItems (whole : List Char) (span : Span) :
    List Pair → Except BuildError (List Form × Option Form)
  | [] => .ok ([], none)
  | mk .dottedTail _ _ children :: pairs => do
    let tail ← buildFirst whole span children
    let (items, later) ← buildItems whole span pairs
    return (items, later.or (some tail))
  | pair :: pairs => do
    let item ← build whole pair
    let (items, tail) ← buildItems whole span pairs
    return (item :: items, tail)

end

/-- The forms of a program. -/
def buildProgram (whole : List Char) (program : Pair) : Except BuildError (List Form) :=
  buildAll whole (program.children.filter (·.rule ≠ .endOfText))

end Pair

/-! ## Literals -/

mutual

/-- The literals of a pair in the order in which they stand. Those outside a binary are of the kind
`kind`. -/
def Pair.literals (kind : LiteralKind) : Pair → List (LiteralKind × Literal)
  | .mk rule text after children =>
    match rule with
    | .integer => [(kind, ⟨text, after⟩)]
    | .binary => literalsOf .byte children
    | _ => literalsOf kind children

def literalsOf (kind : LiteralKind) : List Pair → List (LiteralKind × Literal)
  | [] => []
  | pair :: pairs => pair.literals kind ++ literalsOf kind pairs

end

def hasValue : LiteralKind × Literal → Bool
  | (.byte, literal) => (Numeral.byte? literal.text).isSome
  | (.integer, literal) => (Numeral.int64? literal.text).isSome
  | (.float, literal) => (Float64.parse? literal.text).isSome

def firstFault (literals : List (LiteralKind × Literal)) : Option (LiteralKind × Literal) :=
  literals.find? fun literal => !hasValue literal

def fault? : Except ε α → Option ε
  | .ok _ => none
  | .error fault => some fault

theorem literalsOf_append (kind : LiteralKind) (pairs more : List Pair) :
    literalsOf kind (pairs ++ more) = literalsOf kind pairs ++ literalsOf kind more := by
  induction pairs with
  | nil => rfl
  | cons pair pairs ih => rw [List.cons_append, literalsOf, literalsOf, ih, List.append_assoc]

/-- Of two steps the second is judged only if the first has a value. -/
theorem fault?_bind {literals more : List (LiteralKind × Literal)}
    {x : Except (LiteralKind × Literal) α} {f : α → Except (LiteralKind × Literal) β}
    (hx : fault? x = firstFault literals) (hf : ∀ a, fault? (f a) = firstFault more) :
    fault? (x >>= f) = firstFault (literals ++ more) := by
  rw [firstFault, List.find?_append, ← firstFault, ← firstFault, ← hx]
  cases x with
  | error => rfl
  | ok a => exact hf a

theorem fault?_valued {kind : LiteralKind} {literal : Literal} {value? : List Char → Option α}
    (hvalue : hasValue (kind, literal) = (value? literal.text).isSome) :
    fault? (Datum.valued kind literal value?) = firstFault [(kind, literal)] := by
  rw [firstFault, List.find?_singleton, hvalue, Datum.valued]
  cases value? literal.text <;> rfl

/-! ## Pairs and data -/

/-- The pair is built into the form of the datum, and both hold the same first fault. -/
structure Represents (whole : List Char) (pair : Pair) (datum : Datum) : Prop where
  isForm : pair.rule ≠ .dottedTail ∧ pair.rule ≠ .endOfText
  build_eq : pair.build whole = datum.form.mapError (located whole)
  fault_eq : fault? datum.form = firstFault (pair.literals .integer)

abbrev RepresentsAll (whole : List Char) : List Pair → List Datum → Prop :=
  List.Forall₂ (Represents whole)

variable {whole : List Char} {pair : Pair} {datum : Datum} {pairs : List Pair} {data : List Datum}

theorem RepresentsAll.build_eq (h : RepresentsAll whole pairs data) :
    Pair.buildAll whole pairs = (Datum.forms data).mapError (located whole) := by
  induction h with
  | nil => rfl
  | @cons pair datum pairs data hfirst _ ih =>
    rw [Pair.buildAll, Datum.forms, hfirst.build_eq, ih]
    cases datum.form with
    | error => rfl
    | ok form => cases Datum.forms data <;> rfl

theorem RepresentsAll.fault_eq (h : RepresentsAll whole pairs data) :
    fault? (Datum.forms data) = firstFault (literalsOf .integer pairs) := by
  induction h with
  | nil => rfl
  | cons hfirst _ ih =>
    rw [Datum.forms, literalsOf]
    refine fault?_bind hfirst.fault_eq fun form => ?_
    rw [← ih]
    cases Datum.forms _ <;> rfl

theorem RepresentsAll.ne_endOfText (h : RepresentsAll whole pairs data) :
    ∀ pair ∈ pairs, pair.rule ≠ .endOfText := by
  induction h with
  | nil => exact nofun
  | cons hfirst _ ih => exact List.forall_mem_cons.2 ⟨hfirst.isForm.2, ih⟩

theorem buildItems_cons (hpair : pair.rule ≠ .dottedTail) (span : Span) (pairs : List Pair) :
    Pair.buildItems whole span (pair :: pairs) = (do
      let item ← pair.build whole
      let (items, tail) ← Pair.buildItems whole span pairs
      return (item :: items, tail)) := by
  refine Pair.buildItems.eq_3 whole span pair pairs fun text after children heq => ?_
  exact hpair (heq ▸ rfl)

/-- The items of a list come before its tail. -/
theorem RepresentsAll.buildItems_append (h : RepresentsAll whole pairs data) (span : Span)
    (tail : List Pair) :
    Pair.buildItems whole span (pairs ++ tail) = (do
      let items ← (Datum.forms data).mapError (located whole)
      let (more, found) ← Pair.buildItems whole span tail
      return (items ++ more, found)) := by
  induction h with
  | nil =>
    rw [List.nil_append]
    cases Pair.buildItems whole span tail <;> rfl
  | @cons pair datum pairs data hfirst _ ih =>
    rw [List.cons_append, buildItems_cons hfirst.isForm.1, hfirst.build_eq, ih, Datum.forms]
    cases datum.form with
    | error => rfl
    | ok form =>
      cases Datum.forms data with
      | error => rfl
      | ok forms => cases Pair.buildItems whole span tail <;> rfl

/-! ## Bytes -/

/-- The pair is the integer with this text and place. -/
def IsInteger (pair : Pair) (literal : Literal) : Prop :=
  pair = .mk .integer literal.text literal.after []

theorem build_bytes {bytes : List Literal} (h : List.Forall₂ IsInteger pairs bytes) :
    pairs.mapM (Pair.valued whole .byte Numeral.byte?) =
      (bytes.mapM (Datum.valued .byte · Numeral.byte?)).mapError (located whole) := by
  induction h with
  | nil => rfl
  | @cons pair byte pairs bytes hfirst _ ih =>
    have hbyte : pair.valued whole .byte Numeral.byte? =
        (Datum.valued .byte byte Numeral.byte?).mapError (located whole) := by
      rw [hfirst]
      rfl
    rw [List.mapM_cons, List.mapM_cons, ih, hbyte]
    cases Datum.valued .byte byte Numeral.byte? with
    | error => rfl
    | ok => cases bytes.mapM (Datum.valued .byte · Numeral.byte?) <;> rfl

theorem fault_bytes {bytes : List Literal} (h : List.Forall₂ IsInteger pairs bytes) :
    fault? (bytes.mapM (Datum.valued .byte · Numeral.byte?)) =
      firstFault (literalsOf .byte pairs) := by
  induction h with
  | nil => rfl
  | @cons pair byte pairs bytes hfirst _ ih =>
    rw [List.mapM_cons, literalsOf, hfirst]
    refine fault?_bind (fault?_valued rfl) fun value => ?_
    rw [← ih]
    cases bytes.mapM (Datum.valued .byte · Numeral.byte?) <;> rfl

/-! ## Kinds of pairs -/

section

variable (text : List Char) (after : Nat)

/-- The head of the list that is written as a mark before a form. -/
def headOf? : Rule → Option String
  | .quoted => some "quote"
  | .backquoted => some "backquote"
  | .commaAt => some "comma-at"
  | .comma => some "comma"
  | _ => none

theorem Represents.wrapped {rule : Rule} {head : String} (hrule : headOf? rule = some head)
    (h : Represents whole pair datum) :
    Represents whole (.mk rule text after [pair]) (.wrapped head datum) := by
  have hbuild : Pair.buildFirst whole (Reader.Literal.span whole ⟨text, after⟩) [pair] =
      datum.form.mapError (located whole) := h.build_eq
  have hfault : fault? (Datum.wrapped head datum).form = firstFault (pair.literals .integer) := by
    rw [Datum.form, h.fault_eq.symm]
    cases datum.form <;> rfl
  rw [← List.append_nil (pair.literals .integer)] at hfault
  unfold headOf? at hrule
  split at hrule <;> cases hrule
  all_goals
    refine ⟨⟨nofun, nofun⟩, ?_, hfault⟩
    rw [Pair.build, hbuild, Datum.form]
    cases datum.form <;> rfl

theorem RepresentsAll.list (h : RepresentsAll whole pairs data) :
    Represents whole (.mk .list text after pairs) (.list data) := by
  refine ⟨⟨nofun, nofun⟩, ?_, ?_⟩
  · have hitems := h.buildItems_append (Reader.Literal.span whole ⟨text, after⟩) []
    rw [List.append_nil] at hitems
    rw [Pair.build, hitems, Datum.form]
    cases Datum.forms data with
    | error => rfl
    | ok forms => simp [Except.mapError, Pair.buildItems, bind, Except.bind, pure, Except.pure]
  · change _ = firstFault (literalsOf .integer pairs)
    rw [Datum.form, ← h.fault_eq]
    cases Datum.forms data <;> rfl

theorem RepresentsAll.dotted (h : RepresentsAll whole pairs data)
    (htail : Represents whole pair datum) (inner : List Char) (behind : Nat) :
    Represents whole (.mk .list text after (pairs ++ [.mk .dottedTail inner behind [pair]]))
      (.dotted data datum) := by
  refine ⟨⟨nofun, nofun⟩, ?_, ?_⟩
  · rw [Pair.build, h.buildItems_append, Pair.buildItems, Pair.buildFirst, htail.build_eq,
      Datum.form]
    cases Datum.forms data with
    | error => rfl
    | ok forms =>
      cases datum.form with
      | error => rfl
      | ok form => simp [Except.mapError, Pair.buildItems, bind, Except.bind, pure, Except.pure]
  · change _ = firstFault (literalsOf .integer (pairs ++ _))
    rw [Datum.form, literalsOf_append]
    refine fault?_bind h.fault_eq fun forms => ?_
    have hlast : literalsOf .integer [.mk .dottedTail inner behind [pair]] =
        pair.literals .integer := by
      simp [literalsOf, Pair.literals]
    rw [hlast, ← htail.fault_eq]
    cases datum.form <;> rfl

theorem RepresentsAll.tuple (h : RepresentsAll whole pairs data) :
    Represents whole (.mk .tuple text after pairs) (.tuple data) := by
  refine ⟨⟨nofun, nofun⟩, ?_, ?_⟩
  · rw [Pair.build, h.build_eq, Datum.form]
    cases Datum.forms data <;> rfl
  · change _ = firstFault (literalsOf .integer pairs)
    rw [Datum.form, ← h.fault_eq]
    cases Datum.forms data <;> rfl

theorem represents_binary {bytes : List Literal} (h : List.Forall₂ IsInteger pairs bytes) :
    Represents whole (.mk .binary text after pairs) (.binary bytes) := by
  refine ⟨⟨nofun, nofun⟩, ?_, ?_⟩
  · rw [Pair.build, build_bytes h, Datum.form]
    cases bytes.mapM (Datum.valued .byte · Numeral.byte?) <;> rfl
  · rw [Datum.form, Pair.literals, ← fault_bytes h]
    cases bytes.mapM (Datum.valued .byte · Numeral.byte?) <;> rfl

theorem represents_string (inner : List Char) (behind : Nat) :
    Represents whole (.mk .string text after [.mk .stringInner inner behind []])
      (.string (Reader.unescapeString inner)) :=
  ⟨⟨nofun, nofun⟩, rfl, rfl⟩

theorem represents_barSymbol (inner : List Char) (behind : Nat) :
    Represents whole (.mk .barSymbol text after [.mk .barInner inner behind []])
      (.symbol (Reader.unescapeSymbol inner)) :=
  ⟨⟨nofun, nofun⟩, rfl, rfl⟩

theorem represents_integer :
    Represents whole (.mk .integer text after []) (.integer ⟨text, after⟩) := by
  refine ⟨⟨nofun, nofun⟩, ?_, ?_⟩
  · change (Pair.valued whole .integer Numeral.int64? (.mk .integer text after []) >>= _) = _
    rw [Pair.valued, Pair.literal, Datum.form]
    change ((Datum.valued .integer ⟨text, after⟩ Numeral.int64?).mapError (located whole) >>= _) = _
    cases Datum.valued .integer ⟨text, after⟩ Numeral.int64? <;> rfl
  · rw [Datum.form, Pair.literals, ← fault?_valued rfl]
    cases Datum.valued .integer ⟨text, after⟩ Numeral.int64? <;> rfl

theorem represents_float (hvalue : (Float64.parse? text).isSome = true) :
    Represents whole (.mk .float text after []) (.float ⟨text, after⟩) := by
  obtain ⟨value, hvalue⟩ := Option.isSome_iff_exists.1 hvalue
  have hdatum : Datum.valued .float ⟨text, after⟩ Float64.parse? = .ok value := by
    rw [Datum.valued, hvalue]
  refine ⟨⟨nofun, nofun⟩, ?_, ?_⟩
  · change ((Datum.valued .float ⟨text, after⟩ Float64.parse?).mapError (located whole) >>= _) = _
    rw [Datum.form, hdatum]
    rfl
  · rw [Datum.form, hdatum]
    rfl

theorem represents_symbol : Represents whole (.mk .symbol text after []) (.symbol text) :=
  ⟨⟨nofun, nofun⟩, rfl, rfl⟩

end

end HeaderForms.Grammar
