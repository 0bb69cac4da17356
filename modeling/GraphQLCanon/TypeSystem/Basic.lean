import GraphQLCanon.Text.Order

/-!
# Type-system documents

The definitions of a schema with what their canonical form shows. Types and
defaults are kept in their written form and directives by their names. A
description that is empty differs from none. Nothing is assumed of the texts: a
document need not come from a source.
-/

namespace GraphQLCanon.TypeSystem

/-- An argument of a field, or a field of an input object. -/
structure InputValue where
  name : String
  type : String
  description : Option String
  default : Option String
  directives : List String
  deriving DecidableEq, Repr

/-- The written form of an input value, its description apart. -/
def InputValue.write (input : InputValue) : String :=
  input.name ++ ": " ++ input.type ++
    match input.default with
    | none => ""
    | some value => " = " ++ value

/-- A field of an object type or interface. -/
structure Field where
  name : String
  type : String
  description : Option String
  arguments : List InputValue
  directives : List String
  deriving DecidableEq, Repr

/-- The root types of a schema. -/
structure Schema where
  query : Option String
  mutation : Option String
  subscription : Option String
  description : Option String
  directives : List String
  deriving DecidableEq, Repr

/-- The root operations of a schema with their types, in the order in which they
are written. An empty type name is none. -/
def Schema.roots (schema : Schema) : List (String × String) :=
  [("mutation", schema.mutation), ("query", schema.query),
    ("subscription", schema.subscription)].filterMap fun (operation, type?) =>
      (type?.filter fun type => !type.isEmpty).map fun type => (operation, type)

/-- What opens the definition of a type. -/
structure Header where
  name : String
  description : Option String
  directives : List String
  deriving DecidableEq, Repr

/-- An object type or an interface. -/
structure Composite where
  header : Header
  interfaces : List String
  fields : List Field
  deriving DecidableEq, Repr

/-- An input object type. -/
structure InputObject where
  header : Header
  fields : List InputValue
  deriving DecidableEq, Repr

/-- A value of an enum type. -/
structure EnumValue where
  name : String
  description : Option String
  directives : List String
  deriving DecidableEq, Repr

/-- An enum type. -/
structure Enum where
  header : Header
  values : List EnumValue
  deriving DecidableEq, Repr

/-- A union type. -/
structure Union where
  header : Header
  members : List String
  deriving DecidableEq, Repr

/-- A definition of a type-system document. A foreign definition has no printed
form; it is known by its kind only. -/
inductive Definition
  | schema (definition : Schema)
  | object (definition : Composite)
  | interface (definition : Composite)
  | inputObject (definition : InputObject)
  | enum (definition : Enum)
  | scalar (definition : Header)
  | union (definition : Union)
  | foreign (kind : String)
  deriving DecidableEq, Repr

/-- Definitions in their order. -/
structure Document where
  definitions : List Definition
  deriving DecidableEq, Repr

end GraphQLCanon.TypeSystem
