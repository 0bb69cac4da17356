import GraphQLCanon.Grammar.Definition
import GraphQLCanon.Grammar.Parser.Basic

/-!
# Parsing values, types and directives

Values, list types and selection sets share one allowance of nesting. It is the
number of brackets that may still be opened, so it bounds the recursion.
Constant places admit no variables.
-/

namespace GraphQLCanon.Grammar.Parser

open GraphQLCanon.Lexical

/-- How deep brackets may be nested in a document. -/
def nestingLimit : Nat := 200

/-- A named value: the name, a colon and the value. -/
def namedValue (value : Parser Value) : Parser (String × Value) := do
  let fieldName ← name
  expect .colon
  return (fieldName, ← value)

/-- A variable, or the refusal of it in a constant place. That refusal is
reported at the dollar sign, after the token behind it was looked at. -/
def variableValue (constant : Bool) : Parser Value := do
  let start ← get
  expect .dollar
  if constant then
    match ← peek with
    | some (.name text) => refuseAt start (.variableInConstant text)
    | _ => refuseAt start (.unexpected start.head?)
  else return .variableRef (← name)

/-- The value that a name stands for. -/
def valueOfName (text : String) : Value :=
  if text = "true" then .boolean true
  else if text = "false" then .boolean false
  else if text = "null" then .null
  else .enum text

/-- A value, with so many brackets still to be opened. -/
def value (constant : Bool) (allowance : Nat) : Parser Value := do
  match ← peek with
  | some (.punctuator .openBracket) =>
    match allowance with
    | 0 => refuse fun _ => .nestedTooDeeply
    | inner + 1 => return .list (← enclosed .openBracket .closeBracket (value constant inner))
  | some (.punctuator .openBrace) =>
    match allowance with
    | 0 => refuse fun _ => .nestedTooDeeply
    | inner + 1 =>
      return .object (← enclosed .openBrace .closeBrace (namedValue (value constant inner)))
  | some (.punctuator .dollar) => variableValue constant
  | some (.int text) =>
    advance
    return .int text
  | some (.float text) =>
    advance
    return .float text
  | some (.string text) =>
    advance
    return .string text
  | some (.blockString text) =>
    advance
    return .blockString text
  | some (.name text) =>
    advance
    return valueOfName text
  | _ => refuse .unexpected

/-- A type reference, with so many brackets still to be opened. The bracket of a
list type is passed before the allowance is looked at. -/
def typeReference (allowance : Nat) : Parser TypeReference := do
  let base ←
    if ← skip .openBracket then
      match allowance with
      | 0 => refuse fun _ => .nestedTooDeeply
      | inner + 1 =>
        let item ← typeReference inner
        expect .closeBracket
        pure (TypeReference.list item)
    else pure (TypeReference.named (← name))
  if ← skip .bang then return .nonNull base else return base

/-- The arguments of a field or directive, or none. -/
def arguments (constant : Bool) (allowance : Nat) : Parser (List (String × Value)) :=
  optionallyEnclosed .openParenthesis .closeParenthesis (namedValue (value constant allowance))

/-- The application of a directive. -/
def directive (constant : Bool) (allowance : Nat) : Parser Directive := do
  expect .atSign
  let directiveName ← name
  return ⟨directiveName, ← arguments constant allowance⟩

/-- The directives in front, or none. -/
def directives (constant : Bool) (allowance : Nat) : Parser (List Directive) := do
  if ← sees .atSign then itemsWhile .atSign (directive constant allowance) (← bound)
  else return []

end GraphQLCanon.Grammar.Parser
