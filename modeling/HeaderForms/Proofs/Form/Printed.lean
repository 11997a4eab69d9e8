-- SUMMARY: What the printed text of a form reads as.
import HeaderForms.Proofs.Form.Reading

/-!
# Printed texts

The printed text of a form need not read as the form. A comma before a symbol that starts with `@`
is printed like a splice, and the words for floats that are not finite are symbols. `readBefore`
says for every form what its text reads as in front of other text.
-/

namespace HeaderForms

open Reader

namespace Form

/-! ## What a printed text reads as -/

/-- Whether a comma before the form is read as a splice, when another form is `followed` or not. -/
def splices (followed : Bool) : Form → Bool
  | .symbol name =>
    match name.toList with
    | ['@'] => followed
    | ['@', '.'] => false
    | '@' :: more => isBare ('@' :: more)
    | _ => false
  | _ => false

/-- The reading of a splice mark in the place of the comma and the `@` of a symbol. A lone `@` takes
the next form with it. -/
def splicedBefore (behind : List (Option Form)) : Form → List (Option Form)
  | .symbol name =>
    match name.toList.drop 1 with
    | [] => behind.modifyHead (abbreviated "comma-at")
    | more => abbreviated "comma-at" (runValue more) :: behind
  | _ => behind

mutual

/-- What the text of a form reads as before a text that reads as `behind`. -/
def readBefore (behind : List (Option Form)) : Form → List (Option Form)
  | .symbol name => some (.symbol name) :: behind
  | .integer value => (if Numeral.inInt64 value then some (.integer value) else none) :: behind
  | .float value => some (if value.isFinite then .float value else .symbol value.text) :: behind
  | .string text => some (.string text) :: behind
  | .list [.symbol head, inner] =>
    if (abbreviation? head).isSome then
      if head == "comma" && splices (!behind.isEmpty) inner then splicedBefore behind inner
      else (readBefore behind inner).modifyHead (abbreviated head)
    else ((some (.symbol head) :: readBefore [] inner).mapM id).map .list :: behind
  | .list items => ((readEach [] items).mapM id).map .list :: behind
  | .dotted items tail =>
    (((readEach [] items).mapM id).bind fun items =>
      ((readBefore [] tail).head?.join).map (.dotted items)) :: behind
  | .tuple items => ((readEach [] items).mapM id).map .tuple :: behind
  | .binary bytes => some (.binary bytes) :: behind

/-- What the texts of forms with gaps between them read as. -/
def readEach (behind : List (Option Form)) : List Form → List (Option Form)
  | [] => behind
  | form :: forms => readBefore (readEach behind forms) form

end

/-! ## Texts of lists -/

/-- The head and the form of an abbreviated list. -/
def quotation? : List Form → Option (String × Form)
  | [.symbol head, inner] => if (abbreviation? head).isSome then some (head, inner) else none
  | _ => none

theorem quotation?_eq_some {items : List Form} {head : String} {inner : Form}
    (h : quotation? items = some (head, inner)) :
    items = [.symbol head, inner] ∧ (abbreviation? head).isSome = true := by
  unfold quotation? at h
  split at h
  case h_1 head' inner' =>
    split at h
    case isTrue hhead =>
      cases h
      exact ⟨rfl, hhead⟩
    case isFalse => cases h
  case h_2 => cases h

theorem abbreviation?_eq_some {head short : String} (h : abbreviation? head = some short) :
    (head, short) ∈ abbreviations := by
  rw [abbreviation?, Option.map_eq_some_iff] at h
  obtain ⟨⟨name, short'⟩, hfind, rfl⟩ := h
  have hname := List.find?_some hfind
  rw [beq_iff_eq] at hname
  subst hname
  exact List.mem_of_find?_eq_some hfind

theorem charsAll_eq_map (forms : List Form) : charsAll forms = forms.map chars := by
  induction forms with
  | nil => rfl
  | cons form forms ih => rw [charsAll, ih, List.map_cons]

theorem joined_spaced (texts : List (List Char)) : Joined texts (spaced texts) := by
  induction texts with
  | nil => exact .nil
  | cons text others ih =>
    cases others with
    | nil =>
      have hone : spaced [text] = text := by simp [spaced, List.intercalate]
      rw [hone]
      exact .one text
    | cons next others =>
      have hcons : spaced (text :: next :: others) = text ++ ([' '] ++ spaced (next :: others)) := by
        simp [spaced, List.intercalate]
      rw [hcons]
      exact .cons ⟨by simp, by simp⟩ ih

theorem chars_symbol (name : String) : chars (.symbol name) = symbolChars name.toList :=
  rfl

theorem chars_quotation {head short : String} (h : abbreviation? head = some short)
    (inner : Form) : chars (.list [.symbol head, inner]) = short.toList ++ chars inner := by
  rw [chars, h]

theorem chars_list {items : List Form} (h : quotation? items = none) :
    chars (.list items) = '(' :: (spaced (charsAll items) ++ [')']) := by
  by_cases hpair : ∃ head inner, items = [.symbol head, inner]
  · obtain ⟨head, inner, rfl⟩ := hpair
    have hnone : abbreviation? head = none := by simpa [quotation?] using h
    simp [chars, hnone, charsAll, spaced, List.intercalate]
  · rw [chars.eq_6 items fun head inner heq => hpair ⟨head, inner, heq⟩]
    rfl

theorem readBefore_list {items : List Form} (h : quotation? items = none)
    (behind : List (Option Form)) :
    readBefore behind (.list items) = ((readEach [] items).mapM id).map .list :: behind := by
  by_cases hpair : ∃ head inner, items = [.symbol head, inner]
  · obtain ⟨head, inner, rfl⟩ := hpair
    have hnone : abbreviation? head = none := by simpa [quotation?] using h
    simp [readBefore, hnone, readEach]
  · rw [readBefore.eq_6 behind items fun head inner heq => hpair ⟨head, inner, heq⟩]

theorem readBefore_quotation {head : String} (hhead : (abbreviation? head).isSome = true)
    (inner : Form) (behind : List (Option Form)) :
    readBefore behind (.list [.symbol head, inner]) =
      if head == "comma" && splices (!behind.isEmpty) inner then splicedBefore behind inner
      else (readBefore behind inner).modifyHead (abbreviated head) := by
  rw [readBefore, if_pos hhead]

theorem exists_symbol_of_splices {followed : Bool} {inner : Form}
    (h : splices followed inner = true) :
    ∃ name more, inner = .symbol name ∧ name.toList = '@' :: more ∧ more ≠ ['.'] ∧
      (more = [] → followed = true) := by
  unfold splices at h
  split at h
  case h_2 => cases h
  case h_1 name =>
    split at h
    case h_1 hname => exact ⟨name, [], rfl, hname, by simp, fun _ => h⟩
    case h_2 => cases h
    case h_3 more hone hpoint hname =>
      exact ⟨name, more, rfl, hname, fun heq => hpoint heq, fun heq => absurd heq hone⟩
    case h_4 => cases h

/-- A form is read at the front, and at most the form behind it goes with it. -/
theorem readBefore_eq_cons (form : Form) (behind : List (Option Form)) :
    ∃ value, readBefore behind form = value :: behind ∨
      behind ≠ [] ∧ readBefore behind form = value :: behind.tail := by
  induction form using Form.induction generalizing behind with
  | list items ih =>
    cases hquotation : quotation? items with
    | none => exact ⟨_, .inl (readBefore_list hquotation behind)⟩
    | some pair =>
      obtain ⟨rfl, hhead⟩ := quotation?_eq_some hquotation
      rw [readBefore_quotation hhead]
      split
      case isTrue hsplices =>
        rw [Bool.and_eq_true] at hsplices
        obtain ⟨name, more, hinner, hname, -, hfollowed⟩ := exists_symbol_of_splices hsplices.2
        rw [hinner, splicedBefore, hname, List.drop_one, List.tail_cons]
        cases more with
        | nil =>
          cases behind with
          | nil => cases hfollowed rfl
          | cons next behind => exact ⟨_, .inr ⟨by simp, rfl⟩⟩
        | cons => exact ⟨_, .inl rfl⟩
      case isFalse =>
        obtain ⟨value, hvalue | ⟨hne, hvalue⟩⟩ := ih pair.2 (by simp) behind
        · exact ⟨abbreviated pair.1 value, .inl (by rw [hvalue]; rfl)⟩
        · exact ⟨abbreviated pair.1 value, .inr ⟨hne, by rw [hvalue]; rfl⟩⟩
  | symbol | integer | float | string | dotted | tuple | binary => exact ⟨_, .inl rfl⟩

theorem readBefore_nil (form : Form) : ∃ value, readBefore [] form = [value] := by
  obtain ⟨value, h | ⟨hne, -⟩⟩ := readBefore_eq_cons form []
  · exact ⟨value, h⟩
  · exact absurd rfl hne

/-! ## Texts read as their readings -/

theorem exists_symbol_of_head? {form : Form} (h : form.chars.head? = some '@') :
    ∃ name more, form = .symbol name ∧ name.toList = '@' :: more ∧ isBare ('@' :: more) = true := by
  cases form with
  | symbol name =>
    rw [chars_symbol, symbolChars] at h
    split at h
    case isTrue hbare =>
      obtain ⟨more, hname⟩ := List.head?_eq_some_iff.1 h
      exact ⟨name, more, rfl, hname, hname ▸ hbare⟩
    case isFalse => cases h
  | integer value => exact absurd h (head?_integerChars value)
  | float value => exact absurd h (head?_float value)
  | list items =>
    cases hquotation : quotation? items with
    | none =>
      rw [chars_list hquotation] at h
      cases h
    | some pair =>
      obtain ⟨rfl, hhead⟩ := quotation?_eq_some hquotation
      obtain ⟨short, hshort⟩ := Option.isSome_iff_exists.1 hhead
      rw [chars_quotation hshort] at h
      have hmem := abbreviation?_eq_some hshort
      simp only [abbreviations, List.mem_cons, List.not_mem_nil, or_false, Prod.mk.injEq] at hmem
      rcases hmem with ⟨-, rfl⟩ | ⟨-, rfl⟩ | ⟨-, rfl⟩ | ⟨-, rfl⟩ <;> cases h
  | string | dotted | tuple | binary => cases h

theorem head?_of_splices {followed : Bool} {inner : Form} (h : splices followed inner = true) :
    inner.chars.head? = some '@' := by
  unfold splices at h
  split at h
  case h_2 => cases h
  case h_1 name =>
    split at h
    case h_1 hname => rw [chars_symbol, hname, symbolChars, if_pos (by decide)]; rfl
    case h_2 => cases h
    case h_3 more _ _ hname => rw [chars_symbol, hname, symbolChars, if_pos h]; rfl
    case h_4 => cases h

/-- The text of a comma, when its form starts with the character that makes a splice mark. -/
theorem reads_comma_mark {name : String} {more rest rest' : List Char}
    {behind : List (Option Form)} (hname : name.toList = '@' :: more)
    (hbare : isBare ('@' :: more) = true) (hrest : Breaks rest) (h : Reads rest behind rest') :
    Reads (',' :: '@' :: (more ++ rest))
      (readBefore behind (.list [.symbol "comma", .symbol name])) rest' := by
  have hself := skipBlanks_cons (c := ',') rfl (by decide) (by decide) ('@' :: (more ++ rest))
  have hsymbol := finds_symbol name.toList hrest
  have hvalue : String.ofList ('@' :: more) = name := by rw [← hname, String.ofList_toList]
  rw [hname, symbolChars, if_pos hbare, hvalue] at hsymbol
  rw [readBefore_quotation rfl, beq_self_eq_true, Bool.true_and, splices, hname, splicedBefore,
    hname, List.drop_one, List.tail_cons]
  by_cases hnil : more = []
  · subst hnil
    cases h with
    | stop hmisses => exact .of_finds hself (finds_comma_mark hmisses hsymbol) (.stop hmisses)
    | step hfinds hreads => exact .of_finds hself (finds_commaAt hfinds) hreads
  by_cases hpoint : more = ['.']
  · subst hpoint
    have hmisses : Misses (skipBlanks ('.' :: rest)) := by
      rw [skipBlanks_cons rfl (by decide) (by decide)]
      exact misses_point hrest
    exact .of_finds hself (finds_comma_mark hmisses hsymbol) h
  have hrun : IsRun more :=
    ⟨hnil, hpoint, fun c hc => (isRun_of_isBare hbare).symbolChars c (List.mem_cons_of_mem _ hc)⟩
  have hfinds := finds_run hrun hrest
  rw [← skipBlanks_run hrun hrest] at hfinds
  simp only [hbare, if_true]
  exact .of_finds hself (finds_commaAt hfinds) h

theorem reads_abbreviated {cs cs' rest : List Char} {values : List (Option Form)} {head : String}
    (hself : skipBlanks cs' = cs')
    (hrule : ∀ {value behind}, Finds (skipBlanks cs) value behind →
      Finds cs' (abbreviated head value) behind)
    (hne : values ≠ []) (h : Reads cs values rest) :
    Reads cs' (values.modifyHead (abbreviated head)) rest := by
  cases h with
  | stop => exact absurd rfl hne
  | step hfinds hreads => exact .of_finds hself (hrule hfinds) hreads

theorem reads_quotation {head : String} {inner : Form} {rest rest' : List Char}
    {behind : List (Option Form)} (hhead : (abbreviation? head).isSome = true)
    (hrest : Breaks rest) (h : Reads rest behind rest')
    (hinner : Reads (inner.chars ++ rest) (inner.readBefore behind) rest') :
    Reads ((Form.list [.symbol head, inner]).chars ++ rest)
      (readBefore behind (.list [.symbol head, inner])) rest' := by
  have hne : inner.readBefore behind ≠ [] := by
    obtain ⟨value, hvalue | ⟨-, hvalue⟩⟩ := readBefore_eq_cons inner behind <;> simp [hvalue]
  obtain ⟨short, hshort⟩ := Option.isSome_iff_exists.1 hhead
  have hmem := abbreviation?_eq_some hshort
  rw [chars_quotation hshort]
  simp only [abbreviations, List.mem_cons, List.not_mem_nil, or_false, Prod.mk.injEq] at hmem
  rcases hmem with ⟨rfl, rfl⟩ | ⟨rfl, rfl⟩ | ⟨rfl, rfl⟩ | ⟨rfl, rfl⟩
  · exact reads_abbreviated (skipBlanks_cons rfl (by decide) (by decide) _) finds_quote hne hinner
  · exact reads_abbreviated (skipBlanks_cons rfl (by decide) (by decide) _) finds_backquote hne hinner
  · exact reads_abbreviated (skipBlanks_cons rfl (by decide) (by decide) _) finds_commaAt hne hinner
  · have hself := skipBlanks_cons (c := ',') rfl (by decide) (by decide) (inner.chars ++ rest)
    by_cases hat : (inner.chars ++ rest).head? = some '@'
    · have hhead : inner.chars.head? = some '@' := by
        rw [List.head?_append] at hat
        cases hchars : inner.chars.head? with
        | none =>
          rw [hchars] at hat
          cases hrest <;> cases hat
        | some c => rwa [hchars] at hat
      obtain ⟨name, more, rfl, hname, hbare⟩ := exists_symbol_of_head? hhead
      have hmark := reads_comma_mark hname hbare hrest h
      rw [chars_symbol, symbolChars, hname, if_pos hbare]
      exact hmark
    · have hsplices : splices (!behind.isEmpty) inner = false := by
        by_contra hsplices
        refine hat ?_
        rw [List.head?_append, head?_of_splices (by simpa using hsplices)]
        rfl
      rw [readBefore_quotation hhead, hsplices, Bool.and_false, if_neg Bool.false_ne_true]
      exact reads_abbreviated hself (fun hfinds => finds_comma hfinds hat) hne hinner

/-- The text of the form reads as `readBefore` says, whatever text follows it. -/
def ReadsBefore (form : Form) : Prop :=
  ∀ ⦃rest rest' : List Char⦄ ⦃behind : List (Option Form)⦄, Breaks rest → Reads rest behind rest' →
    Reads (form.chars ++ rest) (form.readBefore behind) rest'

theorem reads_joined {forms : List Form} (h : ∀ form ∈ forms, ReadsBefore form)
    {cs rest rest' : List Char} {behind : List (Option Form)} (hjoined : Joined (charsAll forms) cs)
    (hrest : Breaks rest) (hreads : Reads rest behind rest') :
    Reads (cs ++ rest) (readEach behind forms) rest' := by
  induction forms generalizing cs with
  | nil =>
    cases hjoined
    exact hreads
  | cons form forms ih =>
    have hfirst := h form List.mem_cons_self
    have hothers := fun cs => @ih (fun f hf => h f (List.mem_cons_of_mem form hf)) cs
    rcases hjoined.uncons with ⟨hnil, rfl⟩ | ⟨gap, joined, hne, hgap, hrestJoined, rfl⟩
    · cases forms with
      | nil => exact hfirst hrest hreads
      | cons => cases hnil
    · cases forms with
      | nil => exact absurd rfl hne
      | cons next forms =>
        have hnext := hothers joined hrestJoined
        have hgapped : Reads (gap ++ (joined ++ rest)) (readEach behind (next :: forms)) rest' := by
          obtain ⟨value, hvalue | ⟨-, hvalue⟩⟩ :=
            readBefore_eq_cons next (readEach behind forms) <;>
          · rw [readEach, hvalue] at hnext ⊢
            exact hnext.of_skipBlanks_eq (skipBlanks_blank hgap.blank _)
        rw [List.append_assoc, List.append_assoc]
        exact hfirst (hgap.breaks _) hgapped

/-- The items of a list are read up to its parenthesis. -/
theorem reads_items {items : List Form} (h : ∀ form ∈ items, ReadsBefore form)
    (rest : List Char) :
    Reads (spaced (charsAll items) ++ ')' :: rest) (readEach [] items) (')' :: rest) :=
  reads_joined h (joined_spaced _) (.close rest) (.stop (skipBlanks_close rest ▸ misses_close rest))

theorem readsBefore (form : Form) : ReadsBefore form := by
  induction form using Form.induction with intro rest rest' behind hrest h
  | symbol name =>
    have hfinds := finds_symbol name.toList hrest
    rw [String.ofList_toList] at hfinds
    exact .of_finds (skipBlanks_symbol name.toList hrest) hfinds h
  | integer value =>
    have hrun := isRun_integerChars value
    have hfinds := finds_run hrun hrest
    rw [runValue_integerChars] at hfinds
    exact .of_finds (skipBlanks_run hrun hrest) hfinds h
  | float value =>
    have hrun := isRun_float value
    have hfinds := finds_run hrun hrest
    rw [runValue_float] at hfinds
    exact .of_finds (skipBlanks_run hrun hrest) hfinds h
  | string text =>
    have hfinds := finds_string text.toList rest
    rw [String.ofList_toList] at hfinds
    exact .of_finds (skipBlanks_cons rfl (by decide) (by decide) _) hfinds h
  | list items ih =>
    cases hquotation : quotation? items with
    | some pair =>
      obtain ⟨rfl, hhead⟩ := quotation?_eq_some hquotation
      exact reads_quotation hhead hrest h (ih _ (by simp) hrest h)
    | none =>
      have hitems := finds_list (reads_items ih rest) (skipBlanks_close rest)
      rw [chars_list hquotation, readBefore_list hquotation, List.cons_append, List.append_assoc]
      exact .of_finds (skipBlanks_cons rfl (by decide) (by decide) _) hitems h
  | dotted items tail ih ihTail =>
    have hblank : ∀ cs, skipBlanks (' ' :: cs) = skipBlanks cs :=
      fun cs => @skipBlanks_blank [' '] (by simp) cs
    have hpoint : skipBlanks (' ' :: '.' :: ' ' :: (tail.chars ++ ')' :: rest)) =
        '.' :: ' ' :: (tail.chars ++ ')' :: rest) := by
      rw [hblank, skipBlanks_cons rfl (by decide) (by decide)]
    have hitems := reads_joined ih (joined_spaced _) (.space _)
      (.stop (hpoint ▸ misses_point (.space _)))
    obtain ⟨value, hvalue⟩ := readBefore_nil tail
    have htail := ihTail (.close rest) (.stop (skipBlanks_close rest ▸ misses_close rest))
    rw [hvalue] at htail
    cases htail with
    | step hfinds hstop =>
      cases hstop
      rw [← hblank] at hfinds
      have hdotted := finds_dotted hitems hpoint hfinds (skipBlanks_close rest)
      rw [readBefore, hvalue]
      simp only [chars, List.cons_append, List.append_assoc, List.nil_append]
      exact .of_finds (skipBlanks_cons rfl (by decide) (by decide) _) hdotted h
  | tuple items ih =>
    have hitems := finds_tuple (reads_items ih rest) (skipBlanks_close rest)
    rw [chars, List.cons_append, List.cons_append, List.append_assoc]
    exact .of_finds (skipBlanks_mark (by decide) _) hitems h
  | binary bytes =>
    have hbytes := finds_binary rest (joined_spaced (bytes.map byteChars))
    rw [chars, List.append_assoc, List.append_assoc]
    exact .of_finds (skipBlanks_mark (by decide) _) hbytes h

end Form

end HeaderForms
