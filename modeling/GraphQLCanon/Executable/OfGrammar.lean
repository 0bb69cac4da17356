import GraphQLCanon.Unsupported
import GraphQLCanon.Grammar.Definition
import GraphQLCanon.Executable.Basic

/-!
# Executable documents from source documents

Every operation and fragment of a source document becomes a definition, in order.
The first definition of another kind is not supported. Descriptions are not
kept.
-/

namespace GraphQLCanon.Executable

/-- The written form of named values. -/
def argumentsOf (arguments : List (String × Grammar.Value)) : List Argument :=
  arguments.map fun argument => ⟨argument.1, argument.2.write⟩

/-- A variable definition with its type and default in their written form. -/
def Variable.ofGrammar (definition : Grammar.VariableDefinition) : Variable where
  name := definition.name
  type := definition.type.write
  default := definition.default.map Grammar.Value.write
  directives := Grammar.directiveNames definition.directives

mutual

/-- A selection with its values in their written form. -/
def Selection.ofGrammar : Grammar.Selection → Selection
  | .field aliasName name arguments directives selections =>
    .field ⟨name, aliasName, argumentsOf arguments, Grammar.directiveNames directives⟩
      (selectionsOf selections)
  | .spread name directives => .spread name (Grammar.directiveNames directives)
  | .inline typeCondition directives selections =>
    .inline typeCondition (Grammar.directiveNames directives) (selectionsOf selections)

/-- Selections in their order. -/
def selectionsOf : List Grammar.Selection → List Selection
  | [] => []
  | selection :: selections => Selection.ofGrammar selection :: selectionsOf selections

end

/-- An operation without its description. -/
def Operation.ofGrammar (definition : Grammar.OperationDefinition) : Operation where
  kind := definition.operation.keyword
  name := definition.name
  variableDefinitions := definition.variableDefinitions.map Variable.ofGrammar
  directives := Grammar.directiveNames definition.directives
  selections := selectionsOf definition.selections

/-- A fragment without its description. -/
def Fragment.ofGrammar (definition : Grammar.FragmentDefinition) : Fragment where
  name := definition.name
  typeCondition := definition.typeCondition
  directives := Grammar.directiveNames definition.directives
  selections := selectionsOf definition.selections

/-- An executable definition. A shorthand is a query without a name. -/
def Definition.ofGrammar (definition : Grammar.Definition) : Except Unsupported Definition :=
  match definition with
  | .shorthand selections =>
    .ok (.operation ⟨Grammar.OperationType.query.keyword, none, [], [], selectionsOf selections⟩)
  | .operation source => .ok (.operation (.ofGrammar source))
  | .fragment source => .ok (.fragment (.ofGrammar source))
  | _ => .error (.inQueryDocument definition.label)

/-- The executable document of a source document. The first definition that does not
belong is reported. -/
def Document.ofGrammar (definitions : List Grammar.Definition) : Except Unsupported Document :=
  (definitions.mapM Definition.ofGrammar).map Document.mk

end GraphQLCanon.Executable
