import GraphQLCanon.Lexical.Character

/-!
# Lexical faults

What can be wrong with a text before any grammar is asked. A fault names its
cause and the place where it was found; the place is the part of the text that
begins there.
-/

namespace GraphQLCanon.Lexical

/-- The reasons why no token can be read. -/
inductive FaultCause
  | singleQuote
  | unexpectedCharacter (character : Char)
  | digitAfterZero (digit : Char)
  | expectedDigit (found : Option Char)
  | unterminatedString
  | unknownEscape (written : String)
  | badUnicodeEscape (written : String)
  deriving DecidableEq, Repr

/-- The wording of a lexical fault. -/
def FaultCause.message : FaultCause → String
  | singleQuote =>
    "Unexpected single quote character ('), did you mean to use a double quote (\")?"
  | unexpectedCharacter character =>
    "Unexpected character: " ++ describeCharacter (some character) ++ "."
  | digitAfterZero digit =>
    "Invalid number, unexpected digit after 0: " ++ describeCharacter (some digit) ++ "."
  | expectedDigit found =>
    "Invalid number, expected digit but got: " ++ describeCharacter found ++ "."
  | unterminatedString => "Unterminated string."
  | unknownEscape written => "Invalid character escape sequence: '" ++ written ++ "'."
  | badUnicodeEscape written => "Invalid Unicode escape sequence: '" ++ written ++ "'."

/-- A cause and the text from the offending character on. -/
structure Fault where
  cause : FaultCause
  source : List Char
  deriving DecidableEq, Repr

end GraphQLCanon.Lexical
