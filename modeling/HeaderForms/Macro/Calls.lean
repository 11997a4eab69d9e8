-- SUMMARY: The macro uses of a macro body as calls.
import HeaderForms.Token.Basic

/-!
# Macro uses in macro bodies

The body of a macro may use other macros, and each of those has a definition of its own that is
called like a function. So a use in a body becomes a call: `?NAME(` becomes `NAME(`, a use without
arguments becomes a call without arguments, and `??X`, the text of an argument, becomes a call of
the stringify function on the quoted argument. The names of called macros are atoms.
-/

namespace HeaderForms.MacroUse

def stringifyModule : String := "hdrinc"

def stringifyFunction : String := "stringify"

/-- `hdrinc:stringify(quote(argument))` -/
def stringifyCall (argument : Token) (line : Nat) : List Token :=
  [⟨.atom stringifyModule, line⟩, ⟨.punct .colon, line⟩, ⟨.atom stringifyFunction, line⟩,
   ⟨.punct .openParen, line⟩, ⟨.atom "quote", line⟩, ⟨.punct .openParen, line⟩, argument,
   ⟨.punct .closeParen, line⟩, ⟨.punct .closeParen, line⟩]

/-- The argument list of a use that has none of its own. -/
def emptyArguments (line : Nat) (behind : List Token) : List Token :=
  if behind.head?.any (·.isPunct .openParen) then []
  else [⟨.punct .openParen, line⟩, ⟨.punct .closeParen, line⟩]

/-- The tokens with every use as a call. A question mark that starts none is kept. -/
def toCalls : List Token → List Token
  | [] => []
  | token :: rest =>
    if token.isPunct .question then
      match rest with
      | [] => [token]
      | next :: behind =>
        if next.isPunct .question then
          match behind with
          | [] => [token, next]
          | argument :: behind => stringifyCall argument token.line ++ toCalls behind
        else
          match next.name? with
          | some name =>
            ⟨.atom name, token.line⟩ :: emptyArguments token.line behind ++ toCalls behind
          | none => token :: toCalls (next :: behind)
    else token :: toCalls rest

end HeaderForms.MacroUse
