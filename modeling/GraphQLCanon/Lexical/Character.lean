/-!
# Characters of the lexical grammar

Names, numbers and escapes are written in ASCII. All other characters may stand
in comments and string literals only, so the classes here are those of ASCII.
-/

namespace GraphQLCanon.Lexical

/-- A letter or the underscore: the characters that open a name. -/
def isNameStart (character : Char) : Bool :=
  character.isAlpha || character == '_'

/-- The characters that continue a name: its opening characters and the
digits. -/
def isNameContinue (character : Char) : Bool :=
  isNameStart character || character.isDigit

/-- Characters that separate tokens and have no other effect. The line breaks
are among them, and so is the byte order mark. -/
def isSeparator (character : Char) : Bool :=
  character == ' ' || character == '\t' || character == ',' || character == '\ufeff' ||
    character == '\n' || character == '\r'

/-- The value of a hexadecimal digit in either case. -/
def hexDigitValue? (character : Char) : Option Nat :=
  if '0' ≤ character ∧ character ≤ '9' then some (character.toNat - '0'.toNat)
  else if 'a' ≤ character ∧ character ≤ 'f' then some (character.toNat - 'a'.toNat + 10)
  else if 'A' ≤ character ∧ character ≤ 'F' then some (character.toNat - 'A'.toNat + 10)
  else none

/-- The number that hexadecimal digits denote, the most significant one first;
`none` when one of the characters is no digit. -/
def hexValue? (digits : List Char) : Option Nat :=
  digits.foldl (fun value? digit => do return (← value?) * 16 + (← hexDigitValue? digit)) (some 0)

/-- Upper-case hexadecimal digits of a number, filled up with zeros to a least
count. -/
def hexDigits (least : Nat) (value : Nat) : List Char :=
  ((Nat.toDigits 16 value).map Char.toUpper).leftpad least '0'

/-- A character as messages show it: printable ASCII in single quotes, a double
quote inside single ones, any other character by its code point, and the end of
the text by its own sign. -/
def describeCharacter : Option Char → String
  | none => "<EOF>"
  | some character =>
    if character = '"' then "'\"'"
    else if ' ' ≤ character ∧ character ≤ '~' then "'" ++ character.toString ++ "'"
    else "U+" ++ String.ofList (hexDigits 4 character.toNat)

end GraphQLCanon.Lexical
