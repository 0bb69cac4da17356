import GraphQLCanon.Grammar.Parser.Value

/-!
# Parsing operations and fragments

Selection sets nest through fields and inline fragments. The word that opens a
type condition cannot name a fragment.
-/

namespace GraphQLCanon.Grammar.Parser

open GraphQLCanon.Lexical

/-- The name of a fragment. Whatever token carries the word `on` is refused. -/
def fragmentName : Parser String := do
  match (← peek).bind Token.text? with
  | some "on" => refuse .unexpected
  | _ => name

/-- A field, given how its own selections are parsed. -/
def field (allowance : Nat) (selections : Parser (List Selection)) : Parser Selection := do
  let first ← name
  let aliased ← skip .colon
  let fieldName ← if aliased then name else pure first
  let fieldArguments ← arguments false allowance
  let fieldDirectives ← directives false allowance
  let fieldSelections ← if ← sees .openBrace then selections else pure []
  return .field (if aliased then some first else none) fieldName fieldArguments fieldDirectives
    fieldSelections

/-- A fragment spread or an inline fragment, given how the selections of the
latter are parsed. -/
def fragment (allowance : Nat) (selections : Parser (List Selection)) : Parser Selection := do
  expect .ellipsis
  if ← skipKeyword "on" then
    let typeCondition ← name
    let fragmentDirectives ← directives false allowance
    return .inline (some typeCondition) fragmentDirectives (← selections)
  else
    match ← peek with
    | some (.name _) =>
      let spreadName ← fragmentName
      return .spread spreadName (← directives false allowance)
    | _ =>
      let fragmentDirectives ← directives false allowance
      return .inline none fragmentDirectives (← selections)

/-- One entry of a selection set, given how the sets below it are parsed. -/
def selection (allowance : Nat) (selections : Parser (List Selection)) : Parser Selection := do
  if ← sees .ellipsis then fragment allowance selections else field allowance selections

/-- A selection set, with so many brackets still to be opened. -/
def selectionSet : Nat → Parser (List Selection)
  | 0 => refuse fun _ => .nestedTooDeeply
  | inner + 1 => enclosedSome .openBrace .closeBrace (selection inner (selectionSet inner))

/-- The keyword of an operation. The name is passed before it is judged. -/
def operationType : Parser OperationType := do
  let start ← get
  let keyword ← name
  match OperationType.ofKeyword? keyword with
  | some operation => return operation
  | none => refuseAt start (.unexpected start.head?)

/-- The definition of a variable. -/
def variableDefinition : Parser VariableDefinition := do
  let description ← optionalDescription
  expect .dollar
  let variableName ← name
  expect .colon
  let type ← typeReference nestingLimit
  let default ←
    if ← skip .equals then some <$> value true nestingLimit else pure none
  return ⟨description, variableName, type, default, ← directives true nestingLimit⟩

/-- An operation with its keyword. -/
def operationDefinition : Parser OperationDefinition := do
  let description ← optionalDescription
  let operation ← operationType
  let operationName ← optionalName
  let variableDefinitions ←
    optionallyEnclosed .openParenthesis .closeParenthesis variableDefinition
  let operationDirectives ← directives false nestingLimit
  return ⟨description, operation, operationName, variableDefinitions, operationDirectives,
    ← selectionSet nestingLimit⟩

/-- A named fragment. -/
def fragmentDefinition : Parser FragmentDefinition := do
  let description ← optionalDescription
  expectKeyword "fragment"
  let definedName ← fragmentName
  expectKeyword "on"
  let typeCondition ← name
  let fragmentDirectives ← directives false nestingLimit
  return ⟨description, definedName, typeCondition, fragmentDirectives,
    ← selectionSet nestingLimit⟩

end GraphQLCanon.Grammar.Parser
