/-!
# Unsupported constructs

Parts of a valid document that have no canonical form. The first one met is
reported, named by what it is and, for the application of a directive, by what
carries it.
-/

namespace GraphQLCanon

/-- What carries the application of a directive. -/
inductive DirectiveOwner
  | operation (kind : String) (name : Option String)
  | variableDefinition (name : String)
  | fragment (name : String)
  | selectedField (name : String)
  | spread (name : String)
  | typedInlineFragment (typeCondition : String)
  | inlineFragment
  | schema
  | typeDefinition (keyword name : String)
  | field (owner name : String)
  | argument (owner host name : String)
  | enumValue (enum name : String)
  | inputField (input name : String)
  deriving DecidableEq, Repr

/-- The owner in words, with names in double quotes. An operation without a name,
or with an empty one, is called anonymous. -/
def DirectiveOwner.label : DirectiveOwner → String
  | operation kind name =>
    let shown := match name with
      | none => "<anonymous>"
      | some text => if text.isEmpty then "<anonymous>" else text
    kind ++ " \"" ++ shown ++ "\""
  | variableDefinition name => "variable \"$" ++ name ++ "\""
  | fragment name => "fragment \"" ++ name ++ "\""
  | selectedField name => "field \"" ++ name ++ "\""
  | spread name => "fragment spread \"..." ++ name ++ "\""
  | typedInlineFragment typeCondition => "inline fragment on \"" ++ typeCondition ++ "\""
  | inlineFragment => "inline fragment"
  | schema => "schema"
  | typeDefinition keyword name => keyword ++ " \"" ++ name ++ "\""
  | field owner name => "field \"" ++ owner ++ "." ++ name ++ "\""
  | argument owner host name => "argument \"" ++ owner ++ "." ++ host ++ "(" ++ name ++ ")\""
  | enumValue enum name => "enum value \"" ++ enum ++ "." ++ name ++ "\""
  | inputField input name => "input field \"" ++ input ++ "." ++ name ++ "\""

/-- A construct without a canonical form. Definitions that do not belong in their
document are given by their label. -/
inductive Unsupported
  | directive (name : String) (owner : DirectiveOwner)
  | mixedDescriptions (input : String)
  | inQueryDocument (definition : String)
  | inSchemaDocument (definition : String)
  | extension (definition : String)
  | directiveDefinition (name : String)
  | definitionKind (kind : String)
  deriving DecidableEq, Repr

/-- The construct in words. -/
def Unsupported.label : Unsupported → String
  | directive name owner => "directive @" ++ name ++ " on " ++ owner.label
  | mixedDescriptions input =>
    "input \"" ++ input ++ "\" mixing described and undescribed fields"
  | inQueryDocument definition => definition ++ " in query document"
  | inSchemaDocument definition => definition ++ " in schema document"
  | extension definition => definition
  | directiveDefinition name => "directive definition \"@" ++ name ++ "\""
  | definitionKind kind => kind

/-- The message about an unsupported construct. -/
def Unsupported.message (construct : Unsupported) : String :=
  "Unsupported construct: " ++ construct.label

end GraphQLCanon
