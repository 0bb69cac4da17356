/-!
# Tokens

The units of the lexical grammar. Numbers keep their spelling and are never
normalised; string tokens carry the text they denote, whichever way it was
written. Block strings are kept apart from quoted strings because values print
in the form they were written in.
-/

namespace GraphQLCanon.Lexical

/-- The signs that are tokens by themselves. -/
inductive Punctuator
  | bang
  | dollar
  | ampersand
  | openParenthesis
  | closeParenthesis
  | ellipsis
  | colon
  | equals
  | atSign
  | openBracket
  | closeBracket
  | openBrace
  | pipe
  | closeBrace
  deriving DecidableEq, Repr

/-- How a punctuator is written. -/
def Punctuator.spelling : Punctuator → String
  | bang => "!"
  | dollar => "$"
  | ampersand => "&"
  | openParenthesis => "("
  | closeParenthesis => ")"
  | ellipsis => "..."
  | colon => ":"
  | equals => "="
  | atSign => "@"
  | openBracket => "["
  | closeBracket => "]"
  | openBrace => "\x7b"
  | pipe => "|"
  | closeBrace => "\x7d"

/-- The punctuator that a single character writes. The ellipsis takes three
characters and is not among them. -/
def Punctuator.ofChar? : Char → Option Punctuator
  | '!' => some bang
  | '$' => some dollar
  | '&' => some ampersand
  | '(' => some openParenthesis
  | ')' => some closeParenthesis
  | ':' => some colon
  | '=' => some equals
  | '@' => some atSign
  | '[' => some openBracket
  | ']' => some closeBracket
  | '{' => some openBrace
  | '|' => some pipe
  | '}' => some closeBrace
  | _ => none

/-- A token with what it denotes: the text of a name or number, the value of a
string. -/
inductive Token
  | punctuator (sign : Punctuator)
  | name (text : String)
  | int (text : String)
  | float (text : String)
  | string (value : String)
  | blockString (value : String)
  deriving DecidableEq, Repr

/-- The text that a token carries, none for punctuators. -/
def Token.text? : Token → Option String
  | punctuator _ => none
  | name text => some text
  | int text => some text
  | float text => some text
  | string value => some value
  | blockString value => some value

/-- A token as messages show it. -/
def Token.describe : Token → String
  | punctuator sign => "'" ++ sign.spelling ++ "'"
  | name text => "Name '" ++ text ++ "'"
  | int text => "Int '" ++ text ++ "'"
  | float text => "Float '" ++ text ++ "'"
  | string value => "String '" ++ value ++ "'"
  | blockString value => "BlockString '" ++ value ++ "'"

/-- What messages say was found: a token, or the end of the text. -/
def describeFound : Option Token → String
  | none => "<EOF>"
  | some token => token.describe

end GraphQLCanon.Lexical
