-- SUMMARY: The grammar of forms: its rules, what they match, and the pairs that they leave.
import Mathlib.Data.List.Basic
import HeaderForms.Numeral

/-!
# The grammar of forms

The grammar is one of ordered choices: an alternative is tried only when those before it do not
match, and a repetition takes all it can. A rule that matches leaves a pair, which holds the text
it matched and the pairs left inside it. `Matches` says what a pattern makes of a text, and there
is one answer at most.
-/

namespace HeaderForms.Grammar

/-! ## Patterns -/

inductive Rule where
  | program
  | endOfText
  | form
  | quoted
  | backquoted
  | commaAt
  | comma
  | list
  | dottedTail
  | tuple
  | binary
  | string
  | stringInner
  | float
  | integer
  | barSymbol
  | barInner
  | symbol
deriving DecidableEq, Repr

inductive Pattern where
  | text (chars : List Char)
  | one (holds : Char → Bool)
  | finish
  /-- The blanks that may stand between two parts of a rule. -/
  | skip
  | seq (first second : Pattern)
  | choice (first second : Pattern)
  | many (item : Pattern)
  /-- Takes nothing, and matches where `item` does not. -/
  | absent (item : Pattern)
  | call (rule : Rule)

namespace Pattern

def empty : Pattern :=
  .text []

def any : Pattern :=
  .one fun _ => true

def optional (item : Pattern) : Pattern :=
  .choice item empty

/-- One part behind the other, blanks between them. -/
def andThen (first second : Pattern) : Pattern :=
  .seq first (.seq .skip second)

/-- Blanks stand between the items, not before the first nor behind the last. -/
def star (item : Pattern) : Pattern :=
  optional (.seq item (.many (.seq .skip item)))

def plus (item : Pattern) : Pattern :=
  andThen item (star item)

def oneOf : List Pattern → Pattern
  | [] => .absent empty
  | first :: others => .choice first (oneOf others)

end Pattern

/-! ## Rules -/

/-- How blanks and pairs are treated inside a rule. Only a plain one may have blanks between its
parts, and an atomic one leaves no pairs inside its own. -/
inductive Mode where
  | plain
  | compound
  | atomic
deriving DecidableEq

open Pattern

def space : Pattern :=
  .oneOf [.text [' '], .text ['\t'], .text ['\r'], .text ['\n']]

def lineComment : Pattern :=
  andThen (.text [';']) (star (andThen (.absent (.text ['\n'])) any))

def blockComment : Pattern :=
  andThen (.text ['#', '|'])
    (andThen (star (andThen (.absent (.text ['|', '#'])) any)) (.text ['|', '#']))

def blanks : Pattern :=
  .seq (.many space) (.many (.seq (.choice lineComment blockComment) (.many space)))

def symbolChar : Pattern :=
  andThen (.absent (.choice space
    (.one ['(', ')', '[', ']', '"', '\x27', '\x60', ',', ';', '|', '\\'].contains))) any

def sign : Pattern :=
  .choice (.text ['-']) (.text ['+'])

def digit : Pattern :=
  .one Numeral.isDigit

def exponent : Pattern :=
  andThen (.choice (.text ['e']) (.text ['E'])) (andThen (optional sign) (plus digit))

def integerText : Pattern :=
  andThen (optional sign) (plus digit)

def floatText : Pattern :=
  andThen integerText
    (.choice (andThen (.text ['.']) (andThen (plus digit) (optional exponent))) exponent)

/-- Characters up to a `close` that no backslash stands before. -/
def escaped (close : Char) : Pattern :=
  star (.choice (andThen (.absent (.choice (.text [close]) (.text ['\\']))) any)
    (andThen (.text ['\\']) any))

/-- The kinds of form, in the order in which they are tried. -/
def forms : List Rule :=
  [.quoted, .backquoted, .commaAt, .comma, .tuple, .binary, .list, .string, .float, .integer,
    .barSymbol, .symbol]

def enclosed (opening : List Char) (items : Pattern) (close : Char) : Pattern :=
  andThen (.text opening) (andThen items (.text [close]))

def bracketed (opening close : Char) : Pattern :=
  andThen (.text [opening]) (andThen (star (.call .form))
    (andThen (optional (.call .dottedTail)) (.text [close])))

def Rule.body : Rule → Pattern
  -- Nothing has to be matched for the text to start.
  | .program => andThen empty (andThen (star (.call .form)) (.call .endOfText))
  | .endOfText => .finish
  | .form => .oneOf (forms.map .call)
  | .quoted => andThen (.text ['\x27']) (.call .form)
  | .backquoted => andThen (.text ['\x60']) (.call .form)
  | .commaAt => andThen (.text [',', '@']) (.call .form)
  | .comma => andThen (.text [',']) (.call .form)
  | .list => .choice (bracketed '(' ')') (bracketed '[' ']')
  | .dottedTail => andThen (.text ['.']) (.call .form)
  | .tuple => enclosed ['#', '('] (star (.call .form)) ')'
  | .binary => enclosed ['#', 'B', '('] (star (.call .integer)) ')'
  | .string => enclosed ['"'] (.call .stringInner) '"'
  | .stringInner => escaped '"'
  | .float => andThen floatText (.absent symbolChar)
  | .integer => andThen integerText (.absent symbolChar)
  | .barSymbol => enclosed ['|'] (.call .barInner) '|'
  | .barInner => escaped '|'
  | .symbol => andThen (.absent (andThen (.text ['.']) (.absent symbolChar))) (plus symbolChar)

/-- The mode inside a rule that is called in the mode `outer`. -/
def Rule.mode (outer : Mode) : Rule → Mode
  | .string | .barSymbol => .compound
  | .stringInner | .barInner | .float | .integer | .symbol => .atomic
  | _ => outer

/-! ## Matching -/

/-- What a rule leaves when it matches: the text, how many characters are behind it, and the pairs
left by the rules inside. -/
inductive Pair where
  | mk (rule : Rule) (text : List Char) (after : Nat) (children : List Pair)

namespace Pair

def rule : Pair → Rule
  | mk rule _ _ _ => rule

def text : Pair → List Char
  | mk _ text _ _ => text

def after : Pair → Nat
  | mk _ _ after _ => after

def children : Pair → List Pair
  | mk _ _ _ children => children

end Pair

/-- The pairs that a matching rule leaves in the mode in which it was called. A form is told by its
kind alone. -/
def Rule.leaves (rule : Rule) (mode : Mode) (text : List Char) (after : Nat)
    (children : List Pair) : List Pair :=
  if rule = .form ∨ mode = .atomic then children else [.mk rule text after children]

/-- What is made of a text: the pairs left and the text behind, or nothing. -/
abbrev Answer :=
  Option (List Pair × List Char)

inductive Matches : Mode → Pattern → List Char → Answer → Prop where
  | text {mode : Mode} {chars cs rest : List Char} (htext : cs = chars ++ rest) :
    Matches mode (.text chars) cs (some ([], rest))
  | text_fails {mode : Mode} {chars cs : List Char} (htext : ∀ rest, cs ≠ chars ++ rest) :
    Matches mode (.text chars) cs none
  | one {mode : Mode} {holds : Char → Bool} {c : Char} {cs : List Char} (hc : holds c = true) :
    Matches mode (.one holds) (c :: cs) (some ([], cs))
  | one_fails {mode : Mode} {holds : Char → Bool} {cs : List Char}
    (hcs : ∀ c rest, cs = c :: rest → holds c = false) : Matches mode (.one holds) cs none
  | finish {mode : Mode} : Matches mode .finish [] (some ([], []))
  | finish_fails {mode : Mode} {c : Char} {cs : List Char} : Matches mode .finish (c :: cs) none
  | skip {cs : List Char} {answer : Answer} (hblanks : Matches .atomic blanks cs answer) :
    Matches .plain .skip cs answer
  | skip_nothing {mode : Mode} {cs : List Char} (hmode : mode ≠ .plain) :
    Matches mode .skip cs (some ([], cs))
  | seq {mode : Mode} {p q : Pattern} {cs behind rest : List Char} {pairs more : List Pair}
    (hfirst : Matches mode p cs (some (pairs, behind)))
    (hsecond : Matches mode q behind (some (more, rest))) :
    Matches mode (.seq p q) cs (some (pairs ++ more, rest))
  | seq_first_fails {mode : Mode} {p q : Pattern} {cs : List Char}
    (hfirst : Matches mode p cs none) : Matches mode (.seq p q) cs none
  | seq_second_fails {mode : Mode} {p q : Pattern} {cs behind : List Char} {pairs : List Pair}
    (hfirst : Matches mode p cs (some (pairs, behind)))
    (hsecond : Matches mode q behind none) : Matches mode (.seq p q) cs none
  | choice_first {mode : Mode} {p q : Pattern} {cs : List Char} {found : List Pair × List Char}
    (hfirst : Matches mode p cs (some found)) : Matches mode (.choice p q) cs (some found)
  | choice_second {mode : Mode} {p q : Pattern} {cs : List Char} {answer : Answer}
    (hfirst : Matches mode p cs none) (hsecond : Matches mode q cs answer) :
    Matches mode (.choice p q) cs answer
  | many_stop {mode : Mode} {p : Pattern} {cs : List Char} (hitem : Matches mode p cs none) :
    Matches mode (.many p) cs (some ([], cs))
  | many_step {mode : Mode} {p : Pattern} {cs behind rest : List Char} {pairs more : List Pair}
    (hitem : Matches mode p cs (some (pairs, behind)))
    (hmore : Matches mode (.many p) behind (some (more, rest))) :
    Matches mode (.many p) cs (some (pairs ++ more, rest))
  | absent {mode : Mode} {p : Pattern} {cs : List Char} (hitem : Matches mode p cs none) :
    Matches mode (.absent p) cs (some ([], cs))
  | absent_fails {mode : Mode} {p : Pattern} {cs : List Char} {found : List Pair × List Char}
    (hitem : Matches mode p cs (some found)) : Matches mode (.absent p) cs none
  | call {mode : Mode} {rule : Rule} {cs text rest : List Char} {children : List Pair}
    (hbody : Matches (rule.mode mode) rule.body cs (some (children, rest)))
    (htext : cs = text ++ rest) :
    Matches mode (.call rule) cs (some (rule.leaves mode text rest.length children, rest))
  | call_fails {mode : Mode} {rule : Rule} {cs : List Char}
    (hbody : Matches (rule.mode mode) rule.body cs none) : Matches mode (.call rule) cs none

/-- The grammar accepts the text, and `program` is what it leaves. -/
def Accepts (text : List Char) (program : Pair) : Prop :=
  ∃ rest, Matches .plain (.call .program) text (some ([program], rest))

def Rejects (text : List Char) : Prop :=
  Matches .plain (.call .program) text none

namespace Matches

variable {mode : Mode} {p q : Pattern} {cs behind next : List Char} {pairs : List Pair}
  {answer : Answer}

/-- The answer of a pattern behind another that has left `pairs`. -/
theorem seq_of (hfirst : Matches mode p cs (some (pairs, behind)))
    (hsecond : Matches mode q behind answer) :
    Matches mode (.seq p q) cs (answer.map fun found => (pairs ++ found.1, found.2)) := by
  cases answer with
  | none => exact .seq_second_fails hfirst hsecond
  | some found => exact .seq hfirst hsecond

theorem andThen (hfirst : Matches mode p cs (some (pairs, behind)))
    (hskip : Matches mode .skip behind (some ([], next))) (hsecond : Matches mode q next answer) :
    Matches mode (.andThen p q) cs (answer.map fun found => (pairs ++ found.1, found.2)) :=
  hfirst.seq_of (by simpa using hskip.seq_of hsecond)

theorem andThen_fails (hfirst : Matches mode p cs none) : Matches mode (.andThen p q) cs none :=
  .seq_first_fails hfirst

end Matches

/-! ## One answer -/

theorem Matches.unique {mode : Mode} {p : Pattern} {cs : List Char} {answer answer' : Answer}
    (h : Matches mode p cs answer) (h' : Matches mode p cs answer') : answer = answer' := by
  induction h generalizing answer' with
  | text htext =>
    cases h' with
    | text htext' => rw [List.append_cancel_left (htext.symm.trans htext')]
    | text_fails hfails => exact absurd htext (hfails _)
  | text_fails hfails =>
    cases h' with
    | text htext => exact absurd htext (hfails _)
    | text_fails => rfl
  | one hc =>
    cases h' with
    | one => rfl
    | one_fails hcs => exact absurd (hcs _ _ rfl) (by simp [hc])
  | one_fails hcs =>
    cases h' with
    | one hc => exact absurd (hcs _ _ rfl) (by simp [hc])
    | one_fails => rfl
  | finish => cases h'; rfl
  | finish_fails => cases h'; rfl
  | skip _ ih =>
    cases h' with
    | skip hblanks => exact ih hblanks
    | skip_nothing hmode => exact absurd rfl hmode
  | skip_nothing hmode =>
    cases h' with
    | skip => exact absurd rfl hmode
    | skip_nothing => rfl
  | seq _ _ ihfirst ihsecond =>
    cases h' with
    | seq hfirst hsecond =>
      cases ihfirst hfirst
      cases ihsecond hsecond
      rfl
    | seq_first_fails hfirst => cases ihfirst hfirst
    | seq_second_fails hfirst hsecond =>
      cases ihfirst hfirst
      cases ihsecond hsecond
  | seq_first_fails _ ih =>
    cases h' with
    | seq hfirst => cases ih hfirst
    | seq_first_fails => rfl
    | seq_second_fails hfirst => cases ih hfirst
  | seq_second_fails _ _ ihfirst ihsecond =>
    cases h' with
    | seq hfirst hsecond =>
      cases ihfirst hfirst
      cases ihsecond hsecond
    | seq_first_fails => rfl
    | seq_second_fails => rfl
  | choice_first _ ih =>
    cases h' with
    | choice_first hfirst => exact ih hfirst
    | choice_second hfirst => cases ih hfirst
  | choice_second _ _ ihfirst ihsecond =>
    cases h' with
    | choice_first hfirst => cases ihfirst hfirst
    | choice_second _ hsecond => exact ihsecond hsecond
  | many_stop _ ih =>
    cases h' with
    | many_stop => rfl
    | many_step hitem => cases ih hitem
  | many_step _ _ ihitem ihmore =>
    cases h' with
    | many_stop hitem => cases ihitem hitem
    | many_step hitem hmore =>
      cases ihitem hitem
      cases ihmore hmore
      rfl
  | absent _ ih =>
    cases h' with
    | absent => rfl
    | absent_fails hitem => cases ih hitem
  | absent_fails _ ih =>
    cases h' with
    | absent hitem => cases ih hitem
    | absent_fails => rfl
  | call _ htext ih =>
    cases h' with
    | call hbody htext' =>
      cases ih hbody
      rw [List.append_cancel_right (htext.symm.trans htext')]
    | call_fails hbody => cases ih hbody
  | call_fails _ ih =>
    cases h' with
    | call hbody => cases ih hbody
    | call_fails => rfl

theorem Matches.suffix {mode : Mode} {p : Pattern} {cs rest : List Char} {pairs : List Pair}
    (h : Matches mode p cs (some (pairs, rest))) : rest <:+ cs := by
  generalize hanswer : (some (pairs, rest) : Answer) = answer at h
  induction h generalizing pairs rest with cases hanswer
  | text htext => exact htext ▸ List.suffix_append _ _
  | one => exact List.suffix_cons _ _
  | finish => exact List.suffix_rfl
  | skip _ ih => exact ih rfl
  | skip_nothing => exact List.suffix_rfl
  | seq _ _ ihfirst ihsecond => exact (ihsecond rfl).trans (ihfirst rfl)
  | choice_first _ ih => exact ih rfl
  | choice_second _ _ _ ih => exact ih rfl
  | many_stop => exact List.suffix_rfl
  | many_step _ _ ihitem ihmore => exact (ihmore rfl).trans (ihitem rfl)
  | absent => exact List.suffix_rfl
  | call _ _ ih => exact ih rfl

end HeaderForms.Grammar
