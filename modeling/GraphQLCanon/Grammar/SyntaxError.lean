import GraphQLCanon.Text.Excerpt
import GraphQLCanon.Lexical.Fault
import GraphQLCanon.Grammar.Refusal

/-!
# Syntax errors

What is reported of a text that is no document: a cause, which is a lexical fault
or a refusal of the grammar, and the offset of the character or token where it
lies. The message quotes the text around that place.
-/

namespace GraphQLCanon.Grammar

/-- Why a text is no document. -/
inductive SyntaxErrorCause
  | lexical (cause : Lexical.FaultCause)
  | grammatical (cause : RefusalCause)
  deriving DecidableEq, Repr

/-- The wording of a cause. -/
def SyntaxErrorCause.message : SyntaxErrorCause → String
  | lexical cause => cause.message
  | grammatical cause => cause.message

/-- A cause, the text that was read, and the offset of the place in it. -/
structure SyntaxError where
  cause : SyntaxErrorCause
  text : List Char
  offset : Nat
  deriving DecidableEq, Repr

/-- The line and column of an error. -/
def SyntaxError.place (error : SyntaxError) : Text.Place :=
  Text.Place.behind (error.text.take error.offset)

/-- The full message of an error, with its place and an excerpt. -/
def SyntaxError.message (error : SyntaxError) : String :=
  let place := error.place
  "Syntax Error: " ++ error.cause.message ++ "\n\nGraphQL request:" ++ toString place.line ++
    ":" ++ toString place.column ++ "\n" ++ Text.excerpt error.text place

end GraphQLCanon.Grammar
