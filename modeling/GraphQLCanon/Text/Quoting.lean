import GraphQLCanon.Text.Visibility

/-!
# Quoting in messages

A text inside a message stands in single quotes, or in double quotes when it holds
single quotes and no double ones. Backslashes, the enclosing quote and characters
that show nothing are written as escapes.
-/

namespace GraphQLCanon.Text

/-- The lower-case hexadecimal digits of a number, filled up with zeros. -/
def paddedHex (width value : Nat) : List Char :=
  (Nat.toDigits 16 value).leftpad width '0'

/-- How a character is written between quotes of a kind. -/
def quoteChar (quote character : Char) : List Char :=
  let code := character.toNat
  if character = quote || character = '\\' then ['\\', character]
  else if character = '\n' then ['\\', 'n']
  else if character = '\r' then ['\\', 'r']
  else if character = '\t' then ['\\', 't']
  else if isVisible character then [character]
  else if code ≤ 0xFF then '\\' :: 'x' :: paddedHex 2 code
  else if code ≤ 0xFFFF then '\\' :: 'u' :: paddedHex 4 code
  else '\\' :: 'U' :: paddedHex 8 code

/-- A text in quotes. -/
def quoted (text : String) : String :=
  let characters := text.toList
  let quote := if '\'' ∈ characters && !('"' ∈ characters) then '"' else '\''
  String.ofList (quote :: characters.flatMap (quoteChar quote) ++ [quote])

end GraphQLCanon.Text
