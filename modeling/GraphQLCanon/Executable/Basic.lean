import GraphQLCanon.Text.Order

/-!
# Executable documents

Operations and fragments with what their canonical form shows. Values and types
are kept in their written form and directives by their names. Nothing is assumed
of the texts: a document need not come from a source.
-/

namespace GraphQLCanon.Executable

/-- A named argument and the written form of its value. -/
structure Argument where
  name : String
  value : String
  deriving DecidableEq, Repr

/-- The written form of an argument. -/
def Argument.write (argument : Argument) : String :=
  argument.name ++ ": " ++ argument.value

/-- The definition of a variable. -/
structure Variable where
  name : String
  type : String
  default : Option String
  directives : List String
  deriving DecidableEq, Repr

/-- The written form of a variable definition. -/
def Variable.write (variableDefinition : Variable) : String :=
  "$" ++ variableDefinition.name ++ ": " ++ variableDefinition.type ++
    match variableDefinition.default with
    | none => ""
    | some value => " = " ++ value

/-- A field without the selections below it. -/
structure Field where
  name : String
  aliasName : Option String
  arguments : List Argument
  directives : List String
  deriving DecidableEq, Repr

/-- The name of a field behind its alias. An empty alias is none. -/
def Field.header (field : Field) : String :=
  match field.aliasName with
  | none => field.name
  | some aliasName => if aliasName.isEmpty then field.name else aliasName ++ ": " ++ field.name

/-- One entry of a selection set. -/
inductive Selection
  | field (head : Field) (selections : List Selection)
  | spread (name : String) (directives : List String)
  | inline (typeCondition : Option String) (directives : List String)
      (selections : List Selection)
  deriving Repr

/-- A query, mutation or subscription. -/
structure Operation where
  kind : String
  name : Option String
  variableDefinitions : List Variable
  directives : List String
  selections : List Selection
  deriving Repr

/-- The name of an operation. An empty name is none. -/
def Operation.shownName? (operation : Operation) : Option String :=
  operation.name.filter fun name => !name.isEmpty

/-- A named fragment. -/
structure Fragment where
  name : String
  typeCondition : String
  directives : List String
  selections : List Selection
  deriving Repr

/-- A definition of an executable document. -/
inductive Definition
  | operation (definition : Operation)
  | fragment (definition : Fragment)
  deriving Repr

/-- Definitions in their order. -/
structure Document where
  definitions : List Definition
  deriving Repr

end GraphQLCanon.Executable
