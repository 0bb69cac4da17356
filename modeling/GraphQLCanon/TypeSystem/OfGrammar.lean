import GraphQLCanon.Unsupported
import GraphQLCanon.Grammar.Definition
import GraphQLCanon.TypeSystem.Basic

/-!
# Type-system documents from source documents

Every schema and type definition of a source document becomes a definition, in
order. The first definition of another kind is not supported. Of several entries
for one root operation the last one counts.
-/

namespace GraphQLCanon.TypeSystem

/-- An input value with its type and default in their written form. -/
def InputValue.ofGrammar (definition : Grammar.InputValueDefinition) : InputValue where
  name := definition.name
  type := definition.type.write
  description := definition.description
  default := definition.default.map Grammar.Value.write
  directives := Grammar.directiveNames definition.directives

/-- A field with its type in its written form. -/
def Field.ofGrammar (definition : Grammar.FieldDefinition) : Field where
  name := definition.name
  type := definition.type.write
  description := definition.description
  arguments := definition.arguments.map InputValue.ofGrammar
  directives := Grammar.directiveNames definition.directives

/-- A value of an enum. -/
def EnumValue.ofGrammar (definition : Grammar.EnumValueDefinition) : EnumValue where
  name := definition.name
  description := definition.description
  directives := Grammar.directiveNames definition.directives

/-- The type that the last entry gives for a root operation. -/
def rootType? (roots : List (Grammar.OperationType × String))
    (operation : Grammar.OperationType) : Option String :=
  (roots.reverse.find? fun root => root.1 == operation).map Prod.snd

/-- A schema or type definition. -/
def Definition.ofTypeSystem : Grammar.TypeSystemDefinition → Definition
  | .schema description directives roots =>
    .schema ⟨rootType? roots .query, rootType? roots .mutation, rootType? roots .subscription,
      description, Grammar.directiveNames directives⟩
  | .scalar description name directives =>
    .scalar ⟨name, description, Grammar.directiveNames directives⟩
  | .object description name interfaces directives fields =>
    .object ⟨⟨name, description, Grammar.directiveNames directives⟩, interfaces,
      fields.map Field.ofGrammar⟩
  | .interface description name interfaces directives fields =>
    .interface ⟨⟨name, description, Grammar.directiveNames directives⟩, interfaces,
      fields.map Field.ofGrammar⟩
  | .union description name directives members =>
    .union ⟨⟨name, description, Grammar.directiveNames directives⟩, members⟩
  | .enum description name directives values =>
    .enum ⟨⟨name, description, Grammar.directiveNames directives⟩, values.map EnumValue.ofGrammar⟩
  | .inputObject description name directives fields =>
    .inputObject ⟨⟨name, description, Grammar.directiveNames directives⟩,
      fields.map InputValue.ofGrammar⟩

/-- A type-system definition. -/
def Definition.ofGrammar (definition : Grammar.Definition) : Except Unsupported Definition :=
  match definition with
  | .typeSystem source => .ok (.ofTypeSystem source)
  | .extension _ => .error (.extension definition.label)
  | .directive source => .error (.directiveDefinition source.name)
  | _ => .error (.inSchemaDocument definition.label)

/-- The type-system document of a source document. The first definition that does not
belong is reported. -/
def Document.ofGrammar (definitions : List Grammar.Definition) : Except Unsupported Document :=
  (definitions.mapM Definition.ofGrammar).map Document.mk

end GraphQLCanon.TypeSystem
