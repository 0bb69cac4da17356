import GraphQLCanon.Grammar.Refusal

/-!
# Parsers over tokens

A parser takes tokens from the front of a list, or refuses. The token in front
counts as looked at. Repetition needs a bound for termination only: a bound of
the number of tokens and one is never reached, since every item takes a token.
-/

namespace GraphQLCanon.Grammar

open GraphQLCanon.Lexical

/-- Takes tokens from the front of a list and yields a value, or refuses. -/
abbrev Parser (α : Type) : Type := StateT (List Token) (Except Refusal) α

namespace Parser

/-- Refuses the token in front. -/
def refuse {α : Type} (cause : Option Token → RefusalCause) : Parser α := fun tokens =>
  .error ⟨cause tokens.head?, tokens, tokens⟩

/-- Refuses at a token that was passed or is still ahead; the token in front has
been looked at. -/
def refuseAt {α : Type} (reported : List Token) (cause : RefusalCause) : Parser α := fun tokens =>
  .error ⟨cause, reported, tokens⟩

/-- The token in front, left where it is. -/
def peek : Parser (Option Token) := fun tokens => .ok (tokens.head?, tokens)

/-- Passes the token in front. -/
def advance : Parser Unit := fun tokens => .ok ((), tokens.tail)

/-- True when a punctuator is in front. -/
def sees (sign : Punctuator) : Parser Bool := fun tokens =>
  .ok (tokens.head? == some (.punctuator sign), tokens)

/-- Passes a punctuator if it is in front, and tells whether it was. -/
def skip (sign : Punctuator) : Parser Bool := do
  if ← sees sign then
    advance
    return true
  else return false

/-- Passes a punctuator that has to be in front. -/
def expect (sign : Punctuator) : Parser Unit := do
  if ← sees sign then advance else refuse (.expectedPunctuator sign)

/-- True when a word is in front. -/
def seesKeyword (word : String) : Parser Bool := fun tokens =>
  .ok (tokens.head? == some (.name word), tokens)

/-- Passes a word if it is in front, and tells whether it was. -/
def skipKeyword (word : String) : Parser Bool := do
  if ← seesKeyword word then
    advance
    return true
  else return false

/-- Passes a word that has to be in front. -/
def expectKeyword (word : String) : Parser Unit := do
  if ← seesKeyword word then advance else refuse (.expectedKeyword word)

/-- Takes a name. -/
def name : Parser String := do
  match ← peek with
  | some (.name text) =>
    advance
    return text
  | _ => refuse .expectedName

/-- Takes a name if there is one in front. -/
def optionalName : Parser (Option String) := do
  match ← peek with
  | some (.name text) =>
    advance
    return some text
  | _ => return none

/-- Takes a string of either form if there is one in front. -/
def optionalDescription : Parser (Option String) := do
  match ← peek with
  | some (.string value) | some (.blockString value) =>
    advance
    return some value
  | _ => return none

/-- A bound on repetition that is never reached: no list of items is longer than
the tokens in front. -/
def bound : Parser Nat := fun tokens => .ok (tokens.length + 1, tokens)

/-- Items up to a closing sign, at most as many as a bound allows. -/
def itemsUntil {α : Type} (closing : Punctuator) (item : Parser α) : Nat → Parser (List α)
  | 0 => do
    expect closing
    return []
  | fuel + 1 => do
    if ← skip closing then return []
    let first ← item
    let others ← itemsUntil closing item fuel
    return first :: others

/-- Any number of items between two signs. -/
def enclosed {α : Type} (opening closing : Punctuator) (item : Parser α) : Parser (List α) := do
  expect opening
  itemsUntil closing item (← bound)

/-- One or more items between two signs. -/
def enclosedSome {α : Type} (opening closing : Punctuator) (item : Parser α) :
    Parser (List α) := do
  expect opening
  let first ← item
  let others ← itemsUntil closing item (← bound)
  return first :: others

/-- One or more items between two signs, or nothing at all. -/
def optionallyEnclosed {α : Type} (opening closing : Punctuator) (item : Parser α) :
    Parser (List α) := do
  if ← sees opening then enclosedSome opening closing item else return []

/-- Items with a separating sign between them, at least one, and no more than a
bound allows after the first. -/
def itemsSeparated {α : Type} (separator : Punctuator) (item : Parser α) : Nat → Parser (List α)
  | 0 => do
    let only ← item
    return [only]
  | fuel + 1 => do
    let first ← item
    if ← skip separator then
      let others ← itemsSeparated separator item fuel
      return first :: others
    else return [first]

/-- One or more items with a separating sign between them and, if it is written,
before the first. -/
def separated {α : Type} (separator : Punctuator) (item : Parser α) : Parser (List α) := do
  let _ ← skip separator
  itemsSeparated separator item (← bound)

/-- Items as long as the sign that opens an item is in front, at most as many as
a bound allows. -/
def itemsWhile {α : Type} (opening : Punctuator) (item : Parser α) : Nat → Parser (List α)
  | 0 => return []
  | fuel + 1 => do
    if ← sees opening then
      let first ← item
      let others ← itemsWhile opening item fuel
      return first :: others
    else return []

end Parser

end GraphQLCanon.Grammar
