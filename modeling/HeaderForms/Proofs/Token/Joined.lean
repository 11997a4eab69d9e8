-- SUMMARY: The tokens of texts that are joined by a newline.
import HeaderForms.Proofs.Token.Settled

/-!
# Joined texts

A comment ends at a newline and no token goes on over the newline behind a text that has tokens. So
these tokens stay as they are when a newline and more text follow, and the text behind the newline
has the tokens it has alone, further down by the lines of the text before it.
-/

namespace HeaderForms

/-! ## Lines -/

/-- The token, some lines further down. -/
def Token.shift (lines : Nat) (token : Token) : Token :=
  ⟨token.lexeme, token.line + lines⟩

/-- The error, some lines further down. -/
def SourceError.shift (lines : Nat) (error : SourceError) : SourceError :=
  ⟨error.line + lines, error.fault⟩

namespace Lexer

/-! ## Gaps -/

theorem skipGap_blank {c : Char} (h : isGap c = true) (cs : List Char) :
    skipGap false (c :: cs) = skipGap false cs ∧
      gapText false (c :: cs) = c :: gapText false cs :=
  ⟨if_pos h, if_pos h⟩

theorem skipGap_token {c : Char} (hgap : ¬ isGap c = true) (hcomment : c ≠ '%') (cs : List Char) :
    skipGap false (c :: cs) = c :: cs ∧ gapText false (c :: cs) = [] := by
  simp [skipGap, gapText, hgap, hcomment]

theorem gapText_append_skipGap (comment : Bool) (cs : List Char) :
    gapText comment cs ++ skipGap comment cs = cs := by
  fun_induction gapText comment cs with
  | case1 c cs ih => exact congrArg (c :: ·) ih
  | case2 c cs hgap ih => rw [(skipGap_blank hgap cs).1, List.cons_append, ih]
  | case3 cs hgap ih => exact congrArg ('%' :: ·) ih
  | case4 c cs hgap hcomment => rw [(skipGap_token hgap hcomment cs).1, List.nil_append]
  | case5 comment => cases comment <;> rfl

/-- The gap before a token ends there, whatever follows. -/
theorem gap_append {comment : Bool} {cs : List Char} (h : skipGap comment cs ≠ [])
    (more : List Char) :
    skipGap comment (cs ++ more) = skipGap comment cs ++ more ∧
      gapText comment (cs ++ more) = gapText comment cs := by
  fun_induction gapText comment cs with
  | case1 c cs ih =>
    obtain ⟨hskip, htext⟩ := ih h
    exact ⟨hskip, congrArg (c :: ·) htext⟩
  | case2 c cs hgap ih =>
    rw [(skipGap_blank hgap cs).1] at h ⊢
    obtain ⟨hskip, htext⟩ := ih h
    obtain ⟨hskip', htext'⟩ := skipGap_blank hgap (cs ++ more)
    exact ⟨hskip'.trans hskip, by rw [List.cons_append, htext', htext]⟩
  | case3 cs hgap ih =>
    obtain ⟨hskip, htext⟩ := ih h
    exact ⟨hskip, congrArg ('%' :: ·) htext⟩
  | case4 c cs hgap hcomment =>
    rw [(skipGap_token hgap hcomment cs).1]
    exact skipGap_token hgap hcomment (cs ++ more)
  | case5 comment => exact absurd (by cases comment <;> rfl) h

/-- A text that is all gap is so before a newline, and a comment in it ends there. -/
theorem gap_append_of_nil {comment : Bool} {cs : List Char} (h : skipGap comment cs = [])
    (more : List Char) :
    skipGap comment (cs ++ '\n' :: more) = skipGap false more ∧
      gapText comment (cs ++ '\n' :: more) = cs ++ '\n' :: gapText false more := by
  fun_induction gapText comment cs with
  | case1 c cs ih =>
    obtain ⟨hskip, htext⟩ := ih h
    exact ⟨hskip, congrArg (c :: ·) htext⟩
  | case2 c cs hgap ih =>
    rw [(skipGap_blank hgap cs).1] at h
    obtain ⟨hskip, htext⟩ := ih h
    obtain ⟨hskip', htext'⟩ := skipGap_blank hgap (cs ++ '\n' :: more)
    exact ⟨hskip'.trans hskip, by rw [List.cons_append, htext', htext]; rfl⟩
  | case3 cs hgap ih =>
    obtain ⟨hskip, htext⟩ := ih h
    exact ⟨hskip, congrArg ('%' :: ·) htext⟩
  | case4 c cs hgap hcomment =>
    rw [(skipGap_token hgap hcomment cs).1] at h
    cases h
  | case5 comment =>
    cases comment with
    | true => exact ⟨rfl, rfl⟩
    | false => exact skipGap_blank (by decide) more

/-! ## Texts -/

theorem newlines_append (cs more : List Char) :
    newlines (cs ++ more) = newlines cs + newlines more :=
  List.count_append

/-- The tokens of a text that starts on `line`. -/
def tokensFrom (line : Nat) (cs : List Char) : Except SourceError (List Token) :=
  tokensWithin (cs.length + 1) line cs

section

variable {line : Nat} {cs : List Char} {scanned : Scanned}

theorem length_rest_lt (h : scan (skipGap false cs) = .ok scanned) :
    scanned.rest.length < cs.length := by
  obtain ⟨htext, hskip, -⟩ := settled_scan _ scanned h
  have hpos := List.length_pos_iff.2 htext
  have hlength := congrArg List.length (gapText_append_skipGap false cs)
  rw [← hskip, List.length_append, List.length_append] at hlength
  omega

/-- The number of steps does not matter where it is larger than the text. -/
theorem tokensWithin_congr {steps steps' : Nat} (hsteps : cs.length < steps)
    (hsteps' : cs.length < steps') : tokensWithin steps line cs = tokensWithin steps' line cs := by
  induction steps generalizing steps' line cs with
  | zero => cases hsteps
  | succ steps ih =>
    obtain ⟨steps', rfl⟩ : ∃ n, steps' = n + 1 := ⟨steps' - 1, by omega⟩
    rw [tokensWithin, tokensWithin]
    split
    case isTrue => rfl
    case isFalse =>
      split
      case h_1 => rfl
      case h_2 scanned hscan =>
        have hlength := length_rest_lt hscan
        have hrest : ∀ line, tokensWithin steps line scanned.rest =
            tokensWithin steps' line scanned.rest := fun _ => ih (by omega) (by omega)
        simp only [hrest]

theorem tokensFrom_of_nil (h : skipGap false cs = []) : tokensFrom line cs = .ok [] := by
  rw [tokensFrom, tokensWithin, if_pos (by rw [h]; rfl)]

theorem tokensFrom_of_error {fault : SourceFault} (hne : skipGap false cs ≠ [])
    (h : scan (skipGap false cs) = .error fault) :
    tokensFrom line cs = .error ⟨line + newlines (gapText false cs), fault⟩ := by
  rw [tokensFrom, tokensWithin, if_neg (by simpa using hne), h]

theorem tokensFrom_of_ok (hne : skipGap false cs ≠ [])
    (h : scan (skipGap false cs) = .ok scanned) :
    tokensFrom line cs =
      (⟨scanned.lexeme, line + newlines (gapText false cs)⟩ :: ·) <$>
        tokensFrom (line + newlines (gapText false cs) + newlines scanned.text) scanned.rest := by
  have hlength := length_rest_lt h
  rw [tokensFrom, tokensWithin, if_neg (by simpa using hne), h, tokensFrom]
  simp only [tokensWithin_congr hlength (Nat.lt_succ_self scanned.rest.length)]
  rfl

/-- Only the line of the first token and the text from there on matter. -/
theorem tokensFrom_congr {line' : Nat} {cs' : List Char}
    (hskip : skipGap false cs = skipGap false cs')
    (hline : line + newlines (gapText false cs) = line' + newlines (gapText false cs')) :
    tokensFrom line cs = tokensFrom line' cs' := by
  by_cases hne : skipGap false cs = []
  case pos => rw [tokensFrom_of_nil hne, tokensFrom_of_nil (hskip ▸ hne)]
  case neg =>
    have hne' : skipGap false cs' ≠ [] := hskip ▸ hne
    cases hscan : scan (skipGap false cs) with
    | error => rw [tokensFrom_of_error hne hscan, tokensFrom_of_error hne' (hskip ▸ hscan), hline]
    | ok => rw [tokensFrom_of_ok hne hscan, tokensFrom_of_ok hne' (hskip ▸ hscan), hline]

/-- What a text has, further down. -/
def shifted (lines : Nat) (result : Except SourceError (List Token)) :
    Except SourceError (List Token) :=
  match result with
  | .ok tokens => .ok (tokens.map (Token.shift lines))
  | .error error => .error (error.shift lines)

theorem shifted_map (lines : Nat) (token : Token) (result : Except SourceError (List Token)) :
    shifted lines ((token :: ·) <$> result) =
      (token.shift lines :: ·) <$> shifted lines result := by
  cases result <;> rfl

theorem tokensFrom_add (line lines : Nat) (cs : List Char) :
    tokensFrom (line + lines) cs = shifted lines (tokensFrom line cs) := by
  induction hlength : cs.length using Nat.strongRecOn generalizing line cs with
  | _ length ih =>
    by_cases hne : skipGap false cs = []
    case pos =>
      rw [tokensFrom_of_nil hne, tokensFrom_of_nil hne]
      rfl
    case neg =>
      have hstart : line + lines + newlines (gapText false cs) =
          line + newlines (gapText false cs) + lines := Nat.add_right_comm _ _ _
      cases hscan : scan (skipGap false cs) with
      | error fault =>
        rw [tokensFrom_of_error hne hscan, tokensFrom_of_error hne hscan, hstart]
        rfl
      | ok scanned =>
        have hrest := length_rest_lt hscan
        rw [tokensFrom_of_ok hne hscan, tokensFrom_of_ok hne hscan, hstart,
          Nat.add_right_comm _ lines, ih _ (hlength ▸ hrest) _ _ rfl, shifted_map]
        rfl

/-- Behind a newline the tokens are those of the text there, further down. By induction on the
text, one token at a time. -/
theorem tokensFrom_append {tokens : List Token} (h : tokensFrom line cs = .ok tokens)
    (more : List Char) :
    tokensFrom line (cs ++ '\n' :: more) =
      (tokens ++ ·) <$> tokensFrom (line + newlines cs + 1) more := by
  induction hlength : cs.length using Nat.strongRecOn generalizing line cs tokens with
  | _ length ih =>
    by_cases hne : skipGap false cs = []
    case pos =>
      rw [tokensFrom_of_nil hne] at h
      cases h
      obtain ⟨hskip, htext⟩ := gap_append_of_nil hne more
      have hlines : newlines ('\n' :: gapText false more) = newlines (gapText false more) + 1 :=
        List.count_cons_self
      have hmore : tokensFrom line (cs ++ '\n' :: more) =
          tokensFrom (line + newlines cs + 1) more := by
        refine tokensFrom_congr hskip ?_
        rw [htext, newlines_append, hlines]
        omega
      rw [hmore]
      cases tokensFrom (line + newlines cs + 1) more <;> rfl
    case neg =>
      cases hscan : scan (skipGap false cs) with
      | error fault =>
        rw [tokensFrom_of_error hne hscan] at h
        cases h
      | ok scanned =>
        obtain ⟨-, hsplit, -⟩ := settled_scan _ scanned hscan
        obtain ⟨hskip, htext⟩ := gap_append hne ('\n' :: more)
        have hrest := length_rest_lt hscan
        have hlines : newlines cs =
            newlines (gapText false cs) + (newlines scanned.text + newlines scanned.rest) := by
          rw [← newlines_append, hsplit, ← newlines_append, gapText_append_skipGap]
        have hne' : skipGap false (cs ++ '\n' :: more) ≠ [] := by
          rw [hskip]
          exact List.append_ne_nil_of_left_ne_nil hne _
        have hscan' := scan_append hscan more
        rw [← hskip] at hscan'
        rw [tokensFrom_of_ok hne hscan] at h
        rw [tokensFrom_of_ok hne' hscan', htext]
        cases hothers : tokensFrom (line + newlines (gapText false cs) + newlines scanned.text)
            scanned.rest with
        | error error =>
          rw [hothers] at h
          cases h
        | ok others =>
          rw [hothers] at h
          cases h
          simp only [ih _ (hlength ▸ hrest) hothers rfl]
          rw [show line + newlines (gapText false cs) + newlines scanned.text +
            newlines scanned.rest + 1 = line + newlines cs + 1 by omega]
          cases tokensFrom (line + newlines cs + 1) more <;> rfl

end

end Lexer

namespace Token

theorem toList_joined (first second : String) :
    (first ++ "\n" ++ second).toList = first.toList ++ '\n' :: second.toList := by
  simp

theorem ofText_append {first : String} {tokens : List Token} (h : ofText first = .ok tokens)
    (second : String) :
    ofText (first ++ "\n" ++ second) =
      (tokens ++ ·) <$>
        Lexer.tokensFrom (1 + Lexer.newlines first.toList + 1) second.toList := by
  change Lexer.tokensFrom 1 _ = _
  rw [toList_joined, Lexer.tokensFrom_append h]

end Token

end HeaderForms
