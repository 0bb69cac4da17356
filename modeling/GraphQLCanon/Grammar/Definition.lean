import GraphQLCanon.Grammar.Value

/-!
# Definitions of a source document

Everything that the grammar accepts at the top of a document, with all that was
written except layout, comments and optional separators. A list that may be left
out but not be empty is an empty list where it was left out.
-/

namespace GraphQLCanon.Grammar

/-- The three kinds of operation. -/
inductive OperationType
  | query
  | mutation
  | subscription
  deriving DecidableEq, Repr

/-- The keyword of an operation. -/
def OperationType.keyword : OperationType → String
  | query => "query"
  | mutation => "mutation"
  | subscription => "subscription"

/-- The operation that a keyword names. -/
def OperationType.ofKeyword? (keyword : String) : Option OperationType :=
  [query, mutation, subscription].find? fun operation => operation.keyword == keyword

/-- The application of a directive. -/
structure Directive where
  name : String
  arguments : List (String × Value)
  deriving Repr

/-- The names of directives, in their order. -/
def directiveNames (directives : List Directive) : List String :=
  directives.map Directive.name

/-- The definition of a variable of an operation. -/
structure VariableDefinition where
  description : Option String
  name : String
  type : TypeReference
  default : Option Value
  directives : List Directive
  deriving Repr

/-- One entry of a selection set. -/
inductive Selection
  | field (aliasName : Option String) (name : String) (arguments : List (String × Value))
      (directives : List Directive) (selections : List Selection)
  | spread (name : String) (directives : List Directive)
  | inline (typeCondition : Option String) (directives : List Directive)
      (selections : List Selection)
  deriving Repr

/-- An operation that is written with its keyword. -/
structure OperationDefinition where
  description : Option String
  operation : OperationType
  name : Option String
  variableDefinitions : List VariableDefinition
  directives : List Directive
  selections : List Selection
  deriving Repr

/-- A named fragment. -/
structure FragmentDefinition where
  description : Option String
  name : String
  typeCondition : String
  directives : List Directive
  selections : List Selection
  deriving Repr

/-- An argument of a field or of a directive definition, or a field of an input
object. -/
structure InputValueDefinition where
  description : Option String
  name : String
  type : TypeReference
  default : Option Value
  directives : List Directive
  deriving Repr

/-- A field of an object type or interface. -/
structure FieldDefinition where
  description : Option String
  name : String
  arguments : List InputValueDefinition
  type : TypeReference
  directives : List Directive
  deriving Repr

/-- A value of an enum type. -/
structure EnumValueDefinition where
  description : Option String
  name : String
  directives : List Directive
  deriving Repr

/-- The root operations of a schema and the six kinds of type. -/
inductive TypeSystemDefinition
  | schema (description : Option String) (directives : List Directive)
      (roots : List (OperationType × String))
  | scalar (description : Option String) (name : String) (directives : List Directive)
  | object (description : Option String) (name : String) (interfaces : List String)
      (directives : List Directive) (fields : List FieldDefinition)
  | interface (description : Option String) (name : String) (interfaces : List String)
      (directives : List Directive) (fields : List FieldDefinition)
  | union (description : Option String) (name : String) (directives : List Directive)
      (members : List String)
  | enum (description : Option String) (name : String) (directives : List Directive)
      (values : List EnumValueDefinition)
  | inputObject (description : Option String) (name : String) (directives : List Directive)
      (fields : List InputValueDefinition)
  deriving Repr

/-- The definition of a directive. -/
structure DirectiveDefinition where
  description : Option String
  name : String
  arguments : List InputValueDefinition
  repeatable : Bool
  locations : List String
  deriving Repr

/-- A definition at the top of a document. An extension holds what it adds, in
the shape of the definition that it extends and without a description. -/
inductive Definition
  | shorthand (selections : List Selection)
  | operation (definition : OperationDefinition)
  | fragment (definition : FragmentDefinition)
  | typeSystem (definition : TypeSystemDefinition)
  | directive (definition : DirectiveDefinition)
  | extension (addition : TypeSystemDefinition)
  deriving Repr

/-- What kind of thing a type-system definition defines. -/
def TypeSystemDefinition.noun : TypeSystemDefinition → String
  | schema .. => "schema"
  | scalar .. => "scalar type"
  | object .. => "object type"
  | interface .. => "interface type"
  | union .. => "union type"
  | enum .. => "enum type"
  | inputObject .. => "input object type"

/-- The name that a type-system definition defines. Schemas have none. -/
def TypeSystemDefinition.name? : TypeSystemDefinition → Option String
  | schema .. => none
  | scalar _ name _ => some name
  | object _ name .. => some name
  | interface _ name .. => some name
  | union _ name .. => some name
  | enum _ name .. => some name
  | inputObject _ name .. => some name

/-- The kind of a definition in words. -/
def Definition.kind : Definition → String
  | shorthand _ => "operation definition"
  | operation _ => "operation definition"
  | fragment _ => "fragment definition"
  | typeSystem definition => definition.noun ++ " definition"
  | directive _ => "directive definition"
  | extension addition => addition.noun ++ " extension"

/-- The name of a definition, if it has one. -/
def Definition.name? : Definition → Option String
  | shorthand _ => none
  | operation definition => definition.name
  | fragment definition => some definition.name
  | typeSystem definition => definition.name?
  | directive definition => some definition.name
  | extension addition => addition.name?

/-- The kind of a definition followed by its name in quotes, if it has one. -/
def Definition.label (definition : Definition) : String :=
  match definition.name? with
  | none => definition.kind
  | some name => definition.kind ++ " \"" ++ name ++ "\""

end GraphQLCanon.Grammar
