import GraphQLCanon.Grammar.Definition
import GraphQLCanon.Lexical.Token

/-!
# Descriptions and leading separators

What a source may write in more than one way: a description as a quoted string or a
block string, and a separator in front of the first interface, union member or directive
location. Descriptions are listed in the order in which they are written, and so are the
places where a separator may lead.
-/

namespace GraphQLCanon.Lexical

/-- True for the strings of either form that denote a value. -/
def Token.Denotes (token : Token) (value : String) : Prop :=
  token = .string value ∨ token = .blockString value

end GraphQLCanon.Lexical

namespace GraphQLCanon.Grammar

open GraphQLCanon.Lexical

section Descriptions

/-- The description of a variable definition, if there is one. -/
def VariableDefinition.descriptions (definition : VariableDefinition) : List String :=
  definition.description.toList

/-- The descriptions of an operation and of its variable definitions. -/
def OperationDefinition.descriptions (definition : OperationDefinition) : List String :=
  definition.description.toList ++
    definition.variableDefinitions.flatMap VariableDefinition.descriptions

/-- The description of a fragment, if there is one. -/
def FragmentDefinition.descriptions (definition : FragmentDefinition) : List String :=
  definition.description.toList

/-- The description of an argument definition or an input field, if there is one. -/
def InputValueDefinition.descriptions (definition : InputValueDefinition) : List String :=
  definition.description.toList

/-- The descriptions of a field and of its arguments. -/
def FieldDefinition.descriptions (definition : FieldDefinition) : List String :=
  definition.description.toList ++
    definition.arguments.flatMap InputValueDefinition.descriptions

/-- The description of an enum value, if there is one. -/
def EnumValueDefinition.descriptions (definition : EnumValueDefinition) : List String :=
  definition.description.toList

/-- The description of a type-system definition. -/
def TypeSystemDefinition.description? : TypeSystemDefinition → Option String
  | schema description .. => description
  | scalar description .. => description
  | object description .. => description
  | interface description .. => description
  | union description .. => description
  | enum description .. => description
  | inputObject description .. => description

/-- The descriptions of the fields, enum values and input fields of a definition. -/
def TypeSystemDefinition.partDescriptions : TypeSystemDefinition → List String
  | schema .. => []
  | scalar .. => []
  | object _ _ _ _ fields => fields.flatMap FieldDefinition.descriptions
  | interface _ _ _ _ fields => fields.flatMap FieldDefinition.descriptions
  | union .. => []
  | enum _ _ _ values => values.flatMap EnumValueDefinition.descriptions
  | inputObject _ _ _ fields => fields.flatMap InputValueDefinition.descriptions

/-- The descriptions of a type-system definition and of its parts. -/
def TypeSystemDefinition.descriptions (definition : TypeSystemDefinition) : List String :=
  definition.description?.toList ++ definition.partDescriptions

/-- The descriptions of a directive definition and of its arguments. -/
def DirectiveDefinition.descriptions (definition : DirectiveDefinition) : List String :=
  definition.description.toList ++
    definition.arguments.flatMap InputValueDefinition.descriptions

/-- The descriptions of a definition and of everything in it. -/
def Definition.descriptions : Definition → List String
  | shorthand _ => []
  | operation definition => definition.descriptions
  | fragment definition => definition.descriptions
  | typeSystem definition => definition.descriptions
  | directive definition => definition.descriptions
  | extension addition => addition.partDescriptions

end Descriptions

section LeadingSigns

/-- The sign that may lead a list of names, where there are names. -/
def leadingSign (sign : Punctuator) (names : List String) : List Punctuator :=
  if names.isEmpty then [] else [sign]

/-- The signs that may lead the interfaces or the members of a definition. -/
def TypeSystemDefinition.leadingSigns : TypeSystemDefinition → List Punctuator
  | object _ _ interfaces _ _ => leadingSign .ampersand interfaces
  | interface _ _ interfaces _ _ => leadingSign .ampersand interfaces
  | union _ _ _ members => leadingSign .pipe members
  | _ => []

/-- The signs that may lead the lists of names in a definition. -/
def Definition.leadingSigns : Definition → List Punctuator
  | typeSystem definition => definition.leadingSigns
  | directive definition => leadingSign .pipe definition.locations
  | extension addition => addition.leadingSigns
  | _ => []

end LeadingSigns

end GraphQLCanon.Grammar
