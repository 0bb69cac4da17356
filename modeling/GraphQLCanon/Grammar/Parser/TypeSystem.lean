import GraphQLCanon.Grammar.Parser.Executable

/-!
# Parsing type-system definitions and extensions

Each kind of definition has a body: what follows its keyword. An extension has
the same body, may leave out the root operations of a schema, and has to add
something.
-/

namespace GraphQLCanon.Grammar.Parser

open GraphQLCanon.Lexical

/-- An argument of a field or directive definition, or a field of an input
object. -/
def inputValueDefinition : Parser InputValueDefinition := do
  let description ← optionalDescription
  let valueName ← name
  expect .colon
  let type ← typeReference nestingLimit
  let default ←
    if ← skip .equals then some <$> value true nestingLimit else pure none
  return ⟨description, valueName, type, default, ← directives true nestingLimit⟩

/-- A list of argument definitions, or none. -/
def argumentDefinitions : Parser (List InputValueDefinition) :=
  optionallyEnclosed .openParenthesis .closeParenthesis inputValueDefinition

/-- A field of an object type or interface. -/
def fieldDefinition : Parser FieldDefinition := do
  let description ← optionalDescription
  let fieldName ← name
  let fieldArguments ← argumentDefinitions
  expect .colon
  let type ← typeReference nestingLimit
  return ⟨description, fieldName, fieldArguments, type, ← directives true nestingLimit⟩

/-- A value of an enum type. Whatever token carries the spelling of another
literal is refused. -/
def enumValueDefinition : Parser EnumValueDefinition := do
  let description ← optionalDescription
  match ← peek with
  | some token =>
    if token.text? ∈ [some "true", some "false", some "null"] then
      refuse fun _ => .reservedEnumValue token
  | none => pure ()
  let valueName ← name
  return ⟨description, valueName, ← directives true nestingLimit⟩

/-- A root operation of a schema and its type. -/
def rootOperation : Parser (OperationType × String) := do
  let operation ← operationType
  expect .colon
  return (operation, ← name)

/-- The interfaces that a type implements, or none. -/
def implementedInterfaces : Parser (List String) := do
  if ← skipKeyword "implements" then separated .ampersand name else return []

/-- The members of a union, or none. -/
def unionMembers : Parser (List String) := do
  if ← skip .equals then separated .pipe name else return []

/-- The body of a schema, given how its root operations are parsed. -/
def schemaBody (roots : Parser (List (OperationType × String))) (description : Option String) :
    Parser TypeSystemDefinition := do
  expectKeyword "schema"
  let schemaDirectives ← directives true nestingLimit
  return .schema description schemaDirectives (← roots)

/-- The body of a scalar type. -/
def scalarBody (description : Option String) : Parser TypeSystemDefinition := do
  expectKeyword "scalar"
  let typeName ← name
  return .scalar description typeName (← directives true nestingLimit)

/-- The fields of an object type or interface, or none. -/
def fieldDefinitions : Parser (List FieldDefinition) :=
  optionallyEnclosed .openBrace .closeBrace fieldDefinition

/-- The body of an object type. -/
def objectBody (description : Option String) : Parser TypeSystemDefinition := do
  expectKeyword "type"
  let typeName ← name
  let interfaces ← implementedInterfaces
  let typeDirectives ← directives true nestingLimit
  return .object description typeName interfaces typeDirectives (← fieldDefinitions)

/-- The body of an interface. -/
def interfaceBody (description : Option String) : Parser TypeSystemDefinition := do
  expectKeyword "interface"
  let typeName ← name
  let interfaces ← implementedInterfaces
  let typeDirectives ← directives true nestingLimit
  return .interface description typeName interfaces typeDirectives (← fieldDefinitions)

/-- The body of a union. -/
def unionBody (description : Option String) : Parser TypeSystemDefinition := do
  expectKeyword "union"
  let typeName ← name
  let typeDirectives ← directives true nestingLimit
  return .union description typeName typeDirectives (← unionMembers)

/-- The body of an enum type. -/
def enumBody (description : Option String) : Parser TypeSystemDefinition := do
  expectKeyword "enum"
  let typeName ← name
  let typeDirectives ← directives true nestingLimit
  let values ← optionallyEnclosed .openBrace .closeBrace enumValueDefinition
  return .enum description typeName typeDirectives values

/-- The body of an input object. -/
def inputObjectBody (description : Option String) : Parser TypeSystemDefinition := do
  expectKeyword "input"
  let typeName ← name
  let typeDirectives ← directives true nestingLimit
  let fields ← optionallyEnclosed .openBrace .closeBrace inputValueDefinition
  return .inputObject description typeName typeDirectives fields

/-- The body that a keyword opens, given how the root operations of a schema are
parsed. -/
def bodyOf? (roots : Parser (List (OperationType × String))) (keyword : String) :
    Option (Option String → Parser TypeSystemDefinition) :=
  match keyword with
  | "schema" => some (schemaBody roots)
  | "scalar" => some scalarBody
  | "type" => some objectBody
  | "interface" => some interfaceBody
  | "union" => some unionBody
  | "enum" => some enumBody
  | "input" => some inputObjectBody
  | _ => none

/-- The root operations of a schema definition, at least one. -/
def rootOperations : Parser (List (OperationType × String)) :=
  enclosedSome .openBrace .closeBrace rootOperation

/-- The root operations that a schema extension adds, or none. -/
def addedRootOperations : Parser (List (OperationType × String)) :=
  optionallyEnclosed .openBrace .closeBrace rootOperation

/-- A type-system definition whose keyword is known. -/
def typeSystemDefinition (body : Option String → Parser TypeSystemDefinition) :
    Parser TypeSystemDefinition := do
  body (← optionalDescription)

/-- True of an extension without content. -/
def isVoid : TypeSystemDefinition → Bool
  | .schema _ directives roots => directives.isEmpty && roots.isEmpty
  | .scalar _ _ directives => directives.isEmpty
  | .object _ _ interfaces directives fields =>
    interfaces.isEmpty && directives.isEmpty && fields.isEmpty
  | .interface _ _ interfaces directives fields =>
    interfaces.isEmpty && directives.isEmpty && fields.isEmpty
  | .union _ _ directives members => directives.isEmpty && members.isEmpty
  | .enum _ _ directives values => directives.isEmpty && values.isEmpty
  | .inputObject _ _ directives fields => directives.isEmpty && fields.isEmpty

/-- An extension behind the word `extend`. -/
def extension : Parser TypeSystemDefinition := do
  match ← peek with
  | some (.name keyword) =>
    match bodyOf? addedRootOperations keyword with
    | some body =>
      let addition ← body none
      if isVoid addition then refuse .unexpected else return addition
    | none => refuse .unexpected
  | _ => refuse .unexpected

/-- The places where a directive can be declared to apply. -/
def directiveLocations : List String :=
  ["QUERY", "MUTATION", "SUBSCRIPTION", "FIELD", "FRAGMENT_DEFINITION", "FRAGMENT_SPREAD",
    "INLINE_FRAGMENT", "VARIABLE_DEFINITION", "SCHEMA", "SCALAR", "OBJECT", "FIELD_DEFINITION",
    "ARGUMENT_DEFINITION", "INTERFACE", "UNION", "ENUM", "ENUM_VALUE", "INPUT_OBJECT",
    "INPUT_FIELD_DEFINITION", "DIRECTIVE_DEFINITION"]

/-- A place where a directive applies. The name is passed before it is
judged. -/
def directiveLocation : Parser String := do
  let start ← get
  let location ← name
  if location ∈ directiveLocations then return location
  else refuseAt start (.unexpected start.head?)

/-- The definition of a directive. -/
def directiveDefinition : Parser DirectiveDefinition := do
  let description ← optionalDescription
  expectKeyword "directive"
  expect .atSign
  let directiveName ← name
  let directiveArguments ← argumentDefinitions
  let repeatable ← skipKeyword "repeatable"
  expectKeyword "on"
  return ⟨description, directiveName, directiveArguments, repeatable,
    ← separated .pipe directiveLocation⟩

end GraphQLCanon.Grammar.Parser
