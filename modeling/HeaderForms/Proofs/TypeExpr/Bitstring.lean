-- SUMMARY: Which texts are read as bit string types, and which of their segments the type keeps.
import Mathlib.Data.List.Induction
import HeaderForms.Proofs.Token.Parser
import HeaderForms.Proofs.Token.Reads
import HeaderForms.TypeExpr.Parser

/-!
# Bit string types

A bit string type has one of four shapes: `<<>>`, `<<_:M>>`, `<<_:_*N>>` and `<<_:M, _:_*N>>`. All
four are read, and so is more: any number of segments in any order, with variables of any names. The
rules below say which texts are read. Of two segments of a kind the type keeps the one behind.
-/

namespace HeaderForms.Parser

variable {limit : Nat} {segment : BitSegment} {segments : List BitSegment} {tokens rest : List Token}
  {lexemes : List Lexeme} {bits base unit : Int}

/-! ## Rules -/

/-- A number of bits, with its sign if it has one. -/
inductive WritesInteger : Int → List Lexeme → Prop where
  | natural (value : Nat) : WritesInteger value [.integer value]
  | negated (value : Nat) : WritesInteger (-value) [.punct .minus, .integer value]

inductive WritesSegment : BitSegment → List Lexeme → Prop where
  | base {name : String} {bits : Int} {number : List Lexeme} (hnumber : WritesInteger bits number) :
    WritesSegment (.base bits) (.var name :: .punct .colon :: number)
  | unit {name repeated : String} {bits : Int} {number : List Lexeme}
    (hnumber : WritesInteger bits number) :
    WritesSegment (.unit bits)
      (.var name :: .punct .colon :: .var repeated :: .punct .star :: number)

/-- One segment or more, and a comma between each two. -/
inductive WritesSegments : List BitSegment → List Lexeme → Prop where
  | single {segment : BitSegment} {lexemes : List Lexeme}
    (hsegment : WritesSegment segment lexemes) : WritesSegments [segment] lexemes
  | cons {segment : BitSegment} {segments : List BitSegment} {first lexemes : List Lexeme}
    (hsegment : WritesSegment segment first) (hsegments : WritesSegments segments lexemes) :
    WritesSegments (segment :: segments) (first ++ .punct .comma :: lexemes)

/-- What stands behind `<<`. -/
inductive WritesBits : List BitSegment → List Lexeme → Prop where
  | none : WritesBits [] [.punct .closeBinary]
  | some {segments : List BitSegment} {lexemes : List Lexeme}
    (hsegments : WritesSegments segments lexemes) :
    WritesBits segments (lexemes ++ [.punct .closeBinary])

/-- What stands behind `<<` in the four shapes, by the base and the unit. -/
inductive Shape : Int → Int → List Lexeme → Prop where
  | empty : Shape 0 0 [.punct .closeBinary]
  | base {base : Int} {number : List Lexeme} (hbase : WritesInteger base number) :
    Shape base 0 (.var "_" :: .punct .colon :: (number ++ [.punct .closeBinary]))
  | unit {unit : Int} {number : List Lexeme} (hunit : WritesInteger unit number) :
    Shape 0 unit
      (.var "_" :: .punct .colon :: .var "_" :: .punct .star :: (number ++ [.punct .closeBinary]))
  | both {base unit : Int} {first second : List Lexeme} (hbase : WritesInteger base first)
    (hunit : WritesInteger unit second) :
    Shape base unit (.var "_" :: .punct .colon :: (first ++ .punct .comma :: .var "_" ::
      .punct .colon :: .var "_" :: .punct .star :: (second ++ [.punct .closeBinary])))

/-! ## What a type keeps of its segments -/

namespace BitSegment

def base? : BitSegment → Option Int
  | .base bits => some bits
  | .unit _ => none

def unit? : BitSegment → Option Int
  | .base _ => none
  | .unit bits => some bits

/-- The segment says no other than a type with this base and this unit. -/
def Holds (base unit : Int) : BitSegment → Prop
  | .base bits => bits = base
  | .unit bits => bits = unit

def SameKind : BitSegment → BitSegment → Prop
  | .base _, .base _ => True
  | .unit _, .unit _ => True
  | _, _ => False

end BitSegment

/-- The last of the parts that segments have, and zero if none has one. -/
def lastPart (part : BitSegment → Option Int) (segments : List BitSegment) : Int :=
  (segments.filterMap part).getLast?.getD 0

theorem lastPart_append_singleton (part : BitSegment → Option Int) (segments : List BitSegment)
    (segment : BitSegment) :
    lastPart part (segments ++ [segment]) = (part segment).getD (lastPart part segments) := by
  unfold lastPart
  rw [List.filterMap_append]
  cases hpart : part segment with
  | none => simp [hpart]
  | some bits => simp [hpart]

theorem bitstring_eq (segments : List BitSegment) :
    bitstring segments = .bitstring (lastPart BitSegment.base? segments)
      (lastPart BitSegment.unit? segments) := by
  unfold bitstring
  induction segments using List.reverseRecOn with
  | nil => rfl
  | append_singleton segments segment ih =>
    rw [List.foldl_append, lastPart_append_singleton, lastPart_append_singleton]
    simp only [TypeExpr.bitstring.injEq] at ih
    cases segment with
    | base bits => simp [BitSegment.base?, BitSegment.unit?, ih]
    | unit bits => simp [BitSegment.base?, BitSegment.unit?, ih]

/-! ## Written segments are read -/

theorem reads_writtenInteger {number : List Lexeme} {follow : Option Lexeme → Prop}
    (h : WritesInteger bits number) : Reads expectInteger number follow bits := by
  cases h with
  | natural value => exact leads_eat_cons_ne (by simp) (leads_take rfl Reads.pure)
  | negated value => exact leads_eat (leads_take rfl Reads.pure)

theorem varName?_of_writesInteger {number : List Lexeme} {ahead : Option Lexeme}
    (h : WritesInteger bits number) : ∀ lexeme ∈ number.head?.or ahead, varName? lexeme = none := by
  intro lexeme hlexeme
  cases h <;> cases hlexeme <;> rfl

theorem reads_writtenSegment {follow : Option Lexeme → Prop} (h : WritesSegment segment lexemes) :
    Reads bitSegment lexemes follow segment := by
  cases h with
  | base hnumber =>
    refine leads_take rfl (leads_expectPunct (leads_take?_none ?_ (reads_writtenInteger hnumber).map))
    exact fun _ _ => varName?_of_writesInteger hnumber
  | unit hnumber =>
    refine leads_take rfl (leads_expectPunct (leads_take? rfl (leads_expectPunct ?_)))
    exact (reads_writtenInteger hnumber).map

theorem reads_writtenSegments (h : WritesSegments segments lexemes)
    (hlimit : segments.length ≤ limit) (found : List BitSegment) :
    Reads (separatedFrom .comma bitSegment limit found) lexemes
      (fun ahead => ahead = some (.punct .closeBinary)) (found.reverse ++ segments) := by
  induction h generalizing limit found with
  | @single segment lexemes hsegment =>
    obtain ⟨limit, rfl⟩ : ∃ rounds, limit = rounds + 1 := Nat.exists_eq_add_of_le' hlimit
    have hread : Reads bitSegment _ (fun _ => True) segment := reads_writtenSegment hsegment
    rw [← List.append_nil lexemes, separatedFrom]
    refine hread.bind (leads_eat_ne ?_ ?_) fun _ _ => trivial
    · rintro ahead rfl
      simp
    · simpa using Reads.pure
  | @cons segment segments first lexemes hsegment hsegments ih =>
    obtain ⟨limit, rfl⟩ := Nat.exists_eq_add_of_le' (Nat.le_trans (Nat.succ_pos _) hlimit)
    have hread : Reads bitSegment _ (fun _ => True) segment := reads_writtenSegment hsegment
    have hmore := ih (Nat.le_of_succ_le_succ hlimit) (segment :: found)
    rw [List.reverse_cons, List.append_assoc, List.singleton_append] at hmore
    rw [separatedFrom]
    exact hread.bind (leads_eat hmore) fun _ _ => trivial

theorem WritesSegments.length_le (h : WritesSegments segments lexemes) :
    segments.length ≤ lexemes.length := by
  induction h with
  | single hsegment => cases hsegment <;> exact Nat.succ_pos _
  | cons _ _ ih =>
    rw [List.length_cons, List.length_append, List.length_cons]
    omega

theorem WritesSegments.exists_var (h : WritesSegments segments lexemes) :
    ∃ name behind, lexemes = .var name :: behind := by
  cases h with
  | single hsegment | cons hsegment => cases hsegment <;> exact ⟨_, _, rfl⟩

theorem reads_writtenBits {follow : Option Lexeme → Prop} (h : WritesBits segments lexemes)
    (hlimit : lexemes.length ≤ limit) :
    Reads (bitstringRest limit) lexemes follow
      (.bitstring (lastPart BitSegment.base? segments) (lastPart BitSegment.unit? segments)) := by
  rw [← bitstring_eq]
  cases h with
  | none => exact leads_eat Reads.pure
  | @some _ lexemes hsegments =>
    rw [List.length_append] at hlimit
    have hlength := hsegments.length_le
    have hcount : segments.length ≤ limit := by omega
    have hread := reads_writtenSegments hsegments hcount []
    refine leads_eat_ne (fun ahead _ => ?_) (hread.bind (leads_expectPunct Reads.pure) ?_)
    · obtain ⟨name, behind, rfl⟩ := hsegments.exists_var
      simp
    · exact fun _ _ => rfl

/-! ## What is read is written -/

theorem exists_of_expectInteger (h : expectInteger tokens = .ok (bits, rest)) :
    ∃ taken, tokens = taken ++ rest ∧ WritesInteger bits (taken.map (·.lexeme)) := by
  obtain ⟨negated, behind, heat, hnumber⟩ := bind_eq_ok.1 h
  obtain ⟨value, left, htake, hdone⟩ := bind_eq_ok.1 hnumber
  obtain ⟨⟨lexeme, line⟩, rfl, hvalue⟩ := exists_of_take htake
  obtain rfl := natural?_eq_some hvalue
  cases hdone
  cases negated with
  | false =>
    obtain rfl := eq_of_eat heat
    exact ⟨[⟨.integer value, line⟩], rfl, .natural value⟩
  | true =>
    obtain ⟨first, rfl⟩ := exists_of_eat heat
    exact ⟨[⟨.punct .minus, first⟩, ⟨.integer value, line⟩], rfl, .negated value⟩

theorem exists_of_bitSegment (h : bitSegment tokens = .ok (segment, rest)) :
    ∃ taken, tokens = taken ++ rest ∧ WritesSegment segment (taken.map (·.lexeme)) := by
  obtain ⟨name, behind, hvar, hcolon⟩ := bind_eq_ok.1 h
  obtain ⟨⟨⟩, left, hexpect, htake⟩ := bind_eq_ok.1 hcolon
  obtain ⟨first, rfl⟩ := exists_of_expectVar hvar
  obtain ⟨second, rfl⟩ := exists_of_expectPunct hexpect
  obtain ⟨repeated, more, htaken, hsize⟩ := bind_eq_ok.1 htake
  cases repeated with
  | none =>
    obtain rfl := eq_of_take? htaken
    obtain ⟨bits, hnumber, rfl⟩ := map_eq_ok.1 hsize
    obtain ⟨taken, rfl, hwrites⟩ := exists_of_expectInteger hnumber
    exact ⟨⟨.var name, first⟩ :: ⟨.punct .colon, second⟩ :: taken, rfl, .base hwrites⟩
  | some repeated =>
    obtain ⟨⟨lexeme, third⟩, rfl, hvalue⟩ := exists_of_take? htaken
    obtain ⟨⟨⟩, after, hstar, hunit⟩ := bind_eq_ok.1 hsize
    obtain ⟨fourth, rfl⟩ := exists_of_expectPunct hstar
    obtain ⟨bits, hnumber, rfl⟩ := map_eq_ok.1 hunit
    obtain ⟨taken, rfl, hwrites⟩ := exists_of_expectInteger hnumber
    cases lexeme with
    | var =>
      exact ⟨⟨.var name, first⟩ :: ⟨.punct .colon, second⟩ :: ⟨.var _, third⟩ ::
        ⟨.punct .star, fourth⟩ :: taken, rfl, .unit hwrites⟩
    | _ => cases hvalue

theorem exists_of_segments (hlimit : tokens.length < limit) {found : List BitSegment}
    (h : separatedFrom .comma bitSegment limit found tokens = .ok (segments, rest)) :
    ∃ more taken, segments = found.reverse ++ more ∧ tokens = taken ++ rest ∧
      WritesSegments more (taken.map (·.lexeme)) := by
  induction limit generalizing found tokens with
  | zero => exact absurd hlimit (Nat.not_lt_zero _)
  | succ limit ih =>
    obtain ⟨segment, between, hsegment, heat⟩ := bind_eq_ok.1 h
    obtain ⟨eaten, behind, heaten, hmore⟩ := bind_eq_ok.1 heat
    obtain ⟨taken, rfl, hwrites⟩ := exists_of_bitSegment hsegment
    cases eaten with
    | false =>
      obtain rfl := eq_of_eat heaten
      cases hmore
      exact ⟨[segment], taken, List.reverse_cons, rfl, .single hwrites⟩
    | true =>
      obtain ⟨line, rfl⟩ := exists_of_eat heaten
      have hshorter : behind.length < limit := by
        simp only [List.length_append, List.length_cons] at hlimit
        omega
      obtain ⟨more, taken', rfl, rfl, hothers⟩ := ih hshorter hmore
      refine ⟨segment :: more, taken ++ ⟨.punct .comma, line⟩ :: taken', ?_, ?_, ?_⟩
      · rw [List.reverse_cons, List.append_assoc, List.singleton_append]
      · rw [List.append_assoc, List.cons_append]
      · rw [List.map_append]
        exact .cons hwrites hothers

theorem exists_of_bitstringRest {type : TypeExpr} (hlimit : tokens.length < limit)
    (h : bitstringRest limit tokens = .ok (type, rest)) :
    ∃ segments taken, tokens = taken ++ rest ∧ WritesBits segments (taken.map (·.lexeme)) ∧
      type = .bitstring (lastPart BitSegment.base? segments)
        (lastPart BitSegment.unit? segments) := by
  obtain ⟨empty, behind, heat, hrest⟩ := bind_eq_ok.1 h
  cases empty with
  | true =>
    obtain ⟨line, rfl⟩ := exists_of_eat heat
    cases hrest
    exact ⟨[], [⟨.punct .closeBinary, line⟩], rfl, .none, rfl⟩
  | false =>
    obtain rfl := eq_of_eat heat
    obtain ⟨segments, left, hsegments, hclose⟩ := bind_eq_ok.1 hrest
    obtain ⟨⟨⟩, after, hexpect, hdone⟩ := bind_eq_ok.1 hclose
    obtain ⟨_, taken, rfl, rfl, hwrites⟩ := exists_of_segments hlimit hsegments
    obtain ⟨line, rfl⟩ := exists_of_expectPunct hexpect
    cases hdone
    refine ⟨segments, taken ++ [⟨.punct .closeBinary, line⟩], ?_, ?_, bitstring_eq segments⟩
    · rw [List.append_assoc, List.singleton_append]
    · rw [List.map_append]
      exact .some hwrites


/-! ## One list of segments for a text -/

theorem WritesSegments.unique {others : List BitSegment} (h : WritesSegments segments lexemes)
    (hothers : WritesSegments others lexemes) : others = segments := by
  let tokens := lexemes.map (Token.mk · 1)
  have htokens : tokens.map (·.lexeme) = lexemes := by
    rw [List.map_map]
    exact List.map_id lexemes
  have hfollow : ([⟨.punct .closeBinary, 1⟩] : List Token).head?.map (·.lexeme) =
    some (.punct .closeBinary) := rfl
  have hread := reads_writtenSegments h h.length_le [] htokens hfollow
  have hreadOthers := reads_writtenSegments hothers hothers.length_le [] htokens hfollow
  have heq := hreadOthers.symm.trans hread
  cases heq
  rfl

theorem WritesBits.unique {others : List BitSegment} (h : WritesBits segments lexemes)
    (hothers : WritesBits others lexemes) : others = segments := by
  cases h with
  | none =>
    generalize hlexemes : [Lexeme.punct .closeBinary] = lexemes at hothers
    cases hothers with
    | none => rfl
    | some hsegments =>
      obtain ⟨name, behind, rfl⟩ := hsegments.exists_var
      simp at hlexemes
  | @some _ written hsegments =>
    generalize hlexemes : written ++ [Lexeme.punct .closeBinary] = lexemes at hothers
    cases hothers with
    | none =>
      obtain ⟨name, behind, rfl⟩ := hsegments.exists_var
      simp at hlexemes
    | some hother =>
      cases List.append_cancel_right hlexemes
      exact hsegments.unique hother

/-! ## Shapes -/

/-- A base or none, and then a unit or none. -/
def Regular (segments : List BitSegment) : Prop :=
  ∃ base unit : Option Int,
    segments = (base.map BitSegment.base).toList ++ (unit.map BitSegment.unit).toList

/-- Every variable is the one without a name. -/
def Nameless (lexemes : List Lexeme) : Prop :=
  ∀ name, .var name ∈ lexemes → name = "_"

theorem nameless_nil : Nameless [] :=
  fun _ hmem => absurd hmem List.not_mem_nil

theorem nameless_cons {lexeme : Lexeme} :
    Nameless (lexeme :: lexemes) ↔ (∀ name, lexeme = .var name → name = "_") ∧ Nameless lexemes := by
  simp [Nameless, or_imp, forall_and, eq_comm]

theorem nameless_append {others : List Lexeme} :
    Nameless (lexemes ++ others) ↔ Nameless lexemes ∧ Nameless others := by
  simp [Nameless, or_imp, forall_and]

theorem nameless_of_writesInteger {number : List Lexeme} (h : WritesInteger bits number) :
    Nameless number := by
  cases h <;> simp [nameless_cons, nameless_nil]

/-- A shape is written with segments, of which the type keeps all. -/
theorem Shape.exists_bits (h : Shape base unit lexemes) :
    ∃ segments, WritesBits segments lexemes ∧ Nameless lexemes ∧ Regular segments ∧
      lastPart BitSegment.base? segments = base ∧ lastPart BitSegment.unit? segments = unit := by
  cases h with
  | empty =>
    exact ⟨[], .none, by simp [nameless_cons, nameless_nil], ⟨none, none, rfl⟩, rfl, rfl⟩
  | base hbase =>
    refine ⟨[.base base], .some (.single (.base hbase)), ?_, ⟨some base, none, rfl⟩, rfl, rfl⟩
    simp [nameless_cons, nameless_append, nameless_nil, nameless_of_writesInteger hbase]
  | unit hunit =>
    refine ⟨[.unit unit], .some (.single (.unit hunit)), ?_, ⟨none, some unit, rfl⟩, rfl, rfl⟩
    simp [nameless_cons, nameless_append, nameless_nil, nameless_of_writesInteger hunit]
  | both hbase hunit =>
    refine ⟨[.base base, .unit unit], ?_, ?_, ⟨some base, some unit, rfl⟩, rfl, rfl⟩
    · simpa using WritesBits.some (.cons (.base hbase) (.single (.unit hunit)))
    · simp [nameless_cons, nameless_append, nameless_nil, nameless_of_writesInteger hbase,
        nameless_of_writesInteger hunit]

/-- Segments in the order of the shapes are written in one of them, if no variable has a name. -/
theorem exists_shape (h : WritesBits segments lexemes) (hnames : Nameless lexemes)
    (hregular : Regular segments) : ∃ base unit, Shape base unit lexemes := by
  obtain ⟨_ | base, _ | unit, rfl⟩ := hregular
  · cases h with
    | none => exact ⟨0, 0, .empty⟩
    | some hsegments => cases hsegments
  · cases h with
    | some hsegments =>
      cases hsegments with
      | single hsegment =>
        cases hsegment with
        | @unit name repeated _ _ hnumber =>
          obtain rfl := hnames name (by simp)
          obtain rfl := hnames repeated (by simp)
          exact ⟨0, unit, .unit hnumber⟩
      | cons _ hsegments => cases hsegments
  · cases h with
    | some hsegments =>
      cases hsegments with
      | single hsegment =>
        cases hsegment with
        | @base name _ _ hnumber =>
          obtain rfl := hnames name (by simp)
          exact ⟨base, 0, .base hnumber⟩
      | cons _ hsegments => cases hsegments
  · cases h with
    | some hsegments =>
      cases hsegments with
      | cons hsegment hsegments =>
        cases hsegment with
        | @base first _ _ hbase =>
          cases hsegments with
          | single hsegment =>
            cases hsegment with
            | @unit name repeated _ _ hunit =>
              obtain rfl := hnames first (by simp)
              obtain rfl := hnames name (by simp)
              obtain rfl := hnames repeated (by simp)
              simpa using ⟨base, unit, Shape.both hbase hunit⟩
          | cons _ hsegments => cases hsegments

/-! ## Segments that are kept -/

theorem lastPart_mem {part : BitSegment → Option Int} (h : bits ∈ segments.filterMap part) :
    lastPart part segments ∈ segments.filterMap part := by
  have hne : segments.filterMap part ≠ [] := List.ne_nil_of_mem h
  rw [lastPart, List.getLast?_eq_some_getLast hne, Option.getD_some]
  exact List.getLast_mem hne

theorem base_mem_iff : bits ∈ segments.filterMap BitSegment.base? ↔ .base bits ∈ segments := by
  rw [List.mem_filterMap]
  constructor
  · rintro ⟨_ | _, hmem, hbits⟩
    · cases hbits
      exact hmem
    · cases hbits
  · exact fun hmem => ⟨_, hmem, rfl⟩

theorem unit_mem_iff : bits ∈ segments.filterMap BitSegment.unit? ↔ .unit bits ∈ segments := by
  rw [List.mem_filterMap]
  constructor
  · rintro ⟨_ | _, hmem, hbits⟩
    · cases hbits
    · cases hbits
      exact hmem
  · exact fun hmem => ⟨_, hmem, rfl⟩

/-- A type keeps all of its segments exactly if no two of a kind differ. -/
theorem forall_holds_iff :
    (∀ segment ∈ segments, segment.Holds (lastPart BitSegment.base? segments)
      (lastPart BitSegment.unit? segments)) ↔
      ∀ first ∈ segments, ∀ second ∈ segments, first.SameKind second → first = second := by
  constructor
  · intro hholds first hfirst second hsecond hkind
    have hone := hholds first hfirst
    have hother := hholds second hsecond
    cases first with
    | base bits =>
      cases second with
      | base other => exact congrArg BitSegment.base (Eq.trans hone (Eq.symm hother))
      | unit other => cases hkind
    | unit bits =>
      cases second with
      | base other => cases hkind
      | unit other => exact congrArg BitSegment.unit (Eq.trans hone (Eq.symm hother))
  · intro hsame segment hmem
    cases segment with
    | base bits =>
      have hlast := base_mem_iff.1 (lastPart_mem (base_mem_iff.2 hmem))
      cases hsame _ hmem _ hlast trivial
      exact rfl
    | unit bits =>
      have hlast := unit_mem_iff.1 (lastPart_mem (unit_mem_iff.2 hmem))
      cases hsame _ hmem _ hlast trivial
      exact rfl

/-! ## Bit string types -/

/-- Behind `<<` exactly the texts that the rules write are read, and the type has the last base and
the last unit. So each of the four shapes is read. A text that is read has one of them exactly if no
variable has a name and its segments are a base or none and then a unit or none; the type keeps all
of them exactly if no two of a kind differ. The limit is one on the tokens that are left. -/
theorem bitstringRest_shapes (hlimit : tokens.length < limit) :
    (∀ type rest, bitstringRest limit tokens = .ok (type, rest) ↔
      ∃ segments taken, tokens = taken ++ rest ∧ WritesBits segments (taken.map (·.lexeme)) ∧
        type = .bitstring (lastPart BitSegment.base? segments)
          (lastPart BitSegment.unit? segments)) ∧
    (∀ taken rest base unit, tokens = taken ++ rest → Shape base unit (taken.map (·.lexeme)) →
      bitstringRest limit tokens = .ok (.bitstring base unit, rest)) ∧
    ∀ taken rest segments, tokens = taken ++ rest →
      WritesBits segments (taken.map (·.lexeme)) →
      ((∃ base unit, Shape base unit (taken.map (·.lexeme))) ↔
        Nameless (taken.map (·.lexeme)) ∧ Regular segments) ∧
      ((∀ segment ∈ segments, segment.Holds (lastPart BitSegment.base? segments)
          (lastPart BitSegment.unit? segments)) ↔
        ∀ first ∈ segments, ∀ second ∈ segments, first.SameKind second → first = second) := by
  have hreads : ∀ taken rest segments, tokens = taken ++ rest →
      WritesBits segments (taken.map (·.lexeme)) →
      bitstringRest limit tokens = .ok (.bitstring (lastPart BitSegment.base? segments)
        (lastPart BitSegment.unit? segments), rest) := by
    rintro taken rest segments rfl hbits
    have hlength : (taken.map (·.lexeme)).length ≤ limit := by
      rw [List.length_map]
      rw [List.length_append] at hlimit
      omega
    have hread : Reads (bitstringRest limit) _ (fun _ => True) _ := reads_writtenBits hbits hlength
    exact hread rfl trivial
  refine ⟨fun type rest => ⟨exists_of_bitstringRest hlimit, ?_⟩, ?_, ?_⟩
  · rintro ⟨segments, taken, htokens, hbits, rfl⟩
    exact hreads taken rest segments htokens hbits
  · intro taken rest base unit htokens hshape
    obtain ⟨segments, hbits, -, -, rfl, rfl⟩ := hshape.exists_bits
    exact hreads taken rest segments htokens hbits
  · intro taken rest segments _ hbits
    refine ⟨⟨?_, fun ⟨hnames, hregular⟩ => exists_shape hbits hnames hregular⟩, forall_holds_iff⟩
    rintro ⟨base, unit, hshape⟩
    obtain ⟨others, hothers, hnames, hregular, -⟩ := hshape.exists_bits
    cases hothers.unique hbits
    exact ⟨hnames, hregular⟩

/-- `<<_:8, _:_*4>>` has a shape, and `<<X:_*4, _:8>>` is read and has none. -/
theorem bitstringRest_shapes_sample :
    let shape := [Lexeme.var "_", .punct .colon, .integer 8, .punct .comma, .var "_",
      .punct .colon, .var "_", .punct .star, .integer 4, .punct .closeBinary]
    let other := [Lexeme.var "X", .punct .colon, .var "_", .punct .star, .integer 4,
      .punct .comma, .var "_", .punct .colon, .integer 8, .punct .closeBinary]
    (shape.map (Token.mk · 1)).length < 11 ∧ Shape 8 4 shape ∧
    bitstringRest 11 (shape.map (Token.mk · 1)) = .ok (.bitstring 8 4, []) ∧
    WritesBits [.unit 4, .base 8] other ∧
    bitstringRest 11 (other.map (Token.mk · 1)) = .ok (.bitstring 8 4, []) ∧
    ¬ ∃ base unit, Shape base unit other := by
  intro shape other
  have hshape : Shape 8 4 shape := .both (.natural 8) (.natural 4)
  have hother : WritesBits [.unit 4, .base 8] other :=
    .some (.cons (.unit (.natural 4)) (.single (.base (.natural 8))))
  obtain ⟨-, hshapes, -⟩ :=
    @bitstringRest_shapes 11 (shape.map (Token.mk · 1)) (by decide)
  obtain ⟨hreads, -, hshaped⟩ :=
    @bitstringRest_shapes 11 (other.map (Token.mk · 1)) (by decide)
  refine ⟨by decide, hshape, hshapes _ [] 8 4 (List.append_nil _).symm hshape, hother,
    (hreads _ _).2 ⟨_, _, (List.append_nil _).symm, hother, rfl⟩, fun hsome => ?_⟩
  have hnames := ((hshaped _ [] _ (List.append_nil _).symm hother).1.1 hsome).1
  exact absurd (hnames "X" List.mem_cons_self) (by decide)

/-- `<<_:1, _:2>>` has none of the shapes and is read as a type of two bits. -/
theorem not_shape_of_bases :
    ¬ ∀ limit tokens type rest, tokens.length < limit →
      bitstringRest limit tokens = .ok (type, rest) →
      ∃ taken base unit, tokens = taken ++ rest ∧ Shape base unit (taken.map (·.lexeme)) ∧
        type = .bitstring base unit := by
  intro hshapes
  let lexemes := [Lexeme.var "_", .punct .colon, .integer 1, .punct .comma, .var "_",
    .punct .colon, .integer 2, .punct .closeBinary]
  have hread : bitstringRest 9 (lexemes.map (Token.mk · 1)) = .ok (.bitstring 2 0, []) := by rfl
  obtain ⟨taken, base, unit, htokens, hshape, -⟩ := hshapes _ _ _ _ (by decide) hread
  rw [List.append_nil] at htokens
  subst htokens
  obtain ⟨segments, hbits, -, ⟨base?, unit?, hregular⟩, -⟩ := hshape.exists_bits
  have hbases : WritesBits [.base 1, .base 2] lexemes :=
    .some (.cons (.base (.natural 1)) (.single (.base (.natural 2))))
  cases hbases.unique hbits
  cases base? <;> cases unit? <;> cases hregular

end HeaderForms.Parser
