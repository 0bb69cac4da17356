import GraphQLCanon.TypeSystem.Basic

/-!
# The canonical order of type-system documents

Fields, arguments, enum values, input fields and union members are ordered by
name, and what has the same name keeps its order. Definitions and implemented
interfaces stay where they are.
-/

namespace GraphQLCanon.TypeSystem

/-- A field with its arguments in order. -/
def Field.canonical (field : Field) : Field :=
  { field with arguments := Text.sortOn InputValue.name field.arguments }

/-- An object type or interface with its fields and their arguments in order. -/
def Composite.canonical (composite : Composite) : Composite :=
  { composite with fields := Text.sortOn Field.name (composite.fields.map Field.canonical) }

/-- An input object with its fields in order. -/
def InputObject.canonical (input : InputObject) : InputObject :=
  { input with fields := Text.sortOn InputValue.name input.fields }

/-- An enum with its values in order. -/
def Enum.canonical (enum : Enum) : Enum :=
  { enum with values := Text.sortOn EnumValue.name enum.values }

/-- A union with its members in order. -/
def Union.canonical (union : Union) : Union :=
  { union with members := Text.sortOn id union.members }

/-- A definition with its parts in order. -/
def Definition.canonical : Definition → Definition
  | schema definition => .schema definition
  | object definition => .object definition.canonical
  | interface definition => .interface definition.canonical
  | inputObject definition => .inputObject definition.canonical
  | enum definition => .enum definition.canonical
  | scalar definition => .scalar definition
  | union definition => .union definition.canonical
  | foreign kind => .foreign kind

/-- A document with the parts of every definition in order. -/
def Document.canonical (document : Document) : Document :=
  ⟨document.definitions.map Definition.canonical⟩

end GraphQLCanon.TypeSystem
