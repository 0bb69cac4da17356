import GraphQLCanon.Lexical.Token

/-!
# Refusals of the grammar

Why a sequence of tokens is no document. A refusal is reported at one token, and
knows how far the tokens had been looked at when it arose: a lexical fault there
or before would have been met first.
-/

namespace GraphQLCanon.Grammar

open GraphQLCanon.Lexical

/-- The reasons why the grammar refuses a token. What was found is a token or the
end of the text. -/
inductive RefusalCause
  | expectedPunctuator (sign : Punctuator) (found : Option Token)
  | expectedName (found : Option Token)
  | expectedKeyword (word : String) (found : Option Token)
  | unexpected (found : Option Token)
  | reservedEnumValue (found : Token)
  | variableInConstant (name : String)
  | describedShorthand
  | misplacedDescription
  | nestedTooDeeply
  deriving DecidableEq, Repr

/-- The wording of a refusal. -/
def RefusalCause.message : RefusalCause → String
  | expectedPunctuator sign found =>
    "Expected '" ++ sign.spelling ++ "', found " ++ describeFound found ++ "."
  | expectedName found => "Expected Name, found " ++ describeFound found ++ "."
  | expectedKeyword word found =>
    "Expected '" ++ word ++ "', found " ++ describeFound found ++ "."
  | unexpected found => "Unexpected " ++ describeFound found ++ "."
  | reservedEnumValue found =>
    found.describe ++ " is reserved and cannot be used for an enum value."
  | variableInConstant name => "Unexpected variable '$" ++ name ++ "' in constant value."
  | describedShorthand =>
    "Unexpected description, descriptions are not supported on shorthand queries."
  | misplacedDescription =>
    "Unexpected description, only GraphQL definitions support descriptions."
  | nestedTooDeeply => "Document is nested too deeply. Parsing aborted."

/-- A cause, the tokens from the reported one on, and the tokens from the
furthest one on that had been looked at. -/
structure Refusal where
  cause : RefusalCause
  reported : List Token
  furthest : List Token
  deriving DecidableEq, Repr

end GraphQLCanon.Grammar
