import GraphQLCanon.TypeSystem.Canonical
import GraphQLCanon.Proofs.Itemwise
import GraphQLCanon.Proofs.StableOrder

/-!
# The order of schema parts

What it means that a schema document is another one rearranged: fields, arguments,
enum values and input fields are in their stable order by name, union members are
in order, and nothing else differs. The canonical form of a document is the one
document that is so, and is its own canonical form.
-/

namespace GraphQLCanon.TypeSystem

open GraphQLCanon.Text

/-- A field with its arguments in stable order. -/
structure Field.Rearranged (source sorted : Field) : Prop where
  name : sorted.name = source.name
  type : sorted.type = source.type
  description : sorted.description = source.description
  arguments : StablySorted nameLe InputValue.name source.arguments sorted.arguments
  directives : sorted.directives = source.directives

/-- An object type or interface with its fields, and their arguments, in stable order.
Its interfaces are as they were. -/
structure Composite.Rearranged (source sorted : Composite) : Prop where
  header : sorted.header = source.header
  interfaces : sorted.interfaces = source.interfaces
  fields : ∃ inner, List.Forall₂ Field.Rearranged source.fields inner ∧
    StablySorted nameLe Field.name inner sorted.fields

/-- An input object with its fields in stable order. -/
structure InputObject.Rearranged (source sorted : InputObject) : Prop where
  header : sorted.header = source.header
  fields : StablySorted nameLe InputValue.name source.fields sorted.fields

/-- An enum with its values in stable order. -/
structure Enum.Rearranged (source sorted : Enum) : Prop where
  header : sorted.header = source.header
  values : StablySorted nameLe EnumValue.name source.values sorted.values

/-- A union with its members in order. -/
structure Union.Rearranged (source sorted : Union) : Prop where
  header : sorted.header = source.header
  members : StablySorted nameLe id source.members sorted.members

/-- A definition with its parts in order. Schemas and scalar types have no parts to be
put in order. -/
inductive Definition.Rearranged : Definition → Definition → Prop
  | schema (definition : Schema) : Rearranged (.schema definition) (.schema definition)
  | object {source sorted : Composite} (parts : source.Rearranged sorted) :
    Rearranged (.object source) (.object sorted)
  | interface {source sorted : Composite} (parts : source.Rearranged sorted) :
    Rearranged (.interface source) (.interface sorted)
  | inputObject {source sorted : InputObject} (parts : source.Rearranged sorted) :
    Rearranged (.inputObject source) (.inputObject sorted)
  | enum {source sorted : Enum} (parts : source.Rearranged sorted) :
    Rearranged (.enum source) (.enum sorted)
  | scalar (definition : Header) : Rearranged (.scalar definition) (.scalar definition)
  | union {source sorted : Union} (parts : source.Rearranged sorted) :
    Rearranged (.union source) (.union sorted)
  | foreign (kind : String) : Rearranged (.foreign kind) (.foreign kind)

/-- A document with every definition rearranged at its place. -/
def Document.Rearranged (source sorted : Document) : Prop :=
  List.Forall₂ Definition.Rearranged source.definitions sorted.definitions

/-- The canonical form of a field is the one field that is it rearranged. -/
theorem Field.rearranged_iff (source sorted : Field) :
    source.Rearranged sorted ↔ sorted = source.canonical := by
  obtain ⟨name, type, description, arguments, directives⟩ := sorted
  constructor
  · rintro ⟨rfl, rfl, rfl, stable, rfl⟩
    rw [Field.canonical, ← (stablySorted_nameLe_iff _ _ _).1 stable]
  · intro same
    cases same
    exact ⟨rfl, rfl, rfl, stablySorted_sortOn _ _, rfl⟩

/-- The canonical form of an object type or interface is the one that is it
rearranged. -/
theorem Composite.rearranged_iff (source sorted : Composite) :
    source.Rearranged sorted ↔ sorted = source.canonical := by
  have changed := forall₂_iff_eq_map
    fun field (_ : field ∈ source.fields) => field.rearranged_iff
  obtain ⟨header, interfaces, fields⟩ := sorted
  constructor
  · rintro ⟨rfl, rfl, inner, pairs, stable⟩
    rw [(changed inner).1 pairs] at stable
    rw [Composite.canonical, ← (stablySorted_nameLe_iff _ _ _).1 stable]
  · intro same
    cases same
    exact ⟨rfl, rfl, _, (changed _).2 rfl, stablySorted_sortOn _ _⟩

/-- The canonical form of an input object is the one that is it rearranged. -/
theorem InputObject.rearranged_iff (source sorted : InputObject) :
    source.Rearranged sorted ↔ sorted = source.canonical := by
  obtain ⟨header, fields⟩ := sorted
  constructor
  · rintro ⟨rfl, stable⟩
    rw [InputObject.canonical, ← (stablySorted_nameLe_iff _ _ _).1 stable]
  · intro same
    cases same
    exact ⟨rfl, stablySorted_sortOn _ _⟩

/-- The canonical form of an enum is the one that is it rearranged. -/
theorem Enum.rearranged_iff (source sorted : Enum) :
    source.Rearranged sorted ↔ sorted = source.canonical := by
  obtain ⟨header, values⟩ := sorted
  constructor
  · rintro ⟨rfl, stable⟩
    rw [Enum.canonical, ← (stablySorted_nameLe_iff _ _ _).1 stable]
  · intro same
    cases same
    exact ⟨rfl, stablySorted_sortOn _ _⟩

/-- The canonical form of a union is the one that is it rearranged. -/
theorem Union.rearranged_iff (source sorted : Union) :
    source.Rearranged sorted ↔ sorted = source.canonical := by
  obtain ⟨header, members⟩ := sorted
  constructor
  · rintro ⟨rfl, stable⟩
    rw [Union.canonical, ← (stablySorted_nameLe_iff _ _ _).1 stable]
  · intro same
    cases same
    exact ⟨rfl, stablySorted_sortOn _ _⟩

/-- A definition that is another one rearranged is its canonical form. -/
theorem Definition.Rearranged.eq_canonical {source sorted : Definition}
    (rearranged : source.Rearranged sorted) : sorted = source.canonical := by
  cases rearranged with
  | schema definition => rfl
  | object parts => exact congrArg Definition.object ((Composite.rearranged_iff _ _).1 parts)
  | interface parts => exact congrArg Definition.interface ((Composite.rearranged_iff _ _).1 parts)
  | inputObject parts =>
    exact congrArg Definition.inputObject ((InputObject.rearranged_iff _ _).1 parts)
  | enum parts => exact congrArg Definition.enum ((Enum.rearranged_iff _ _).1 parts)
  | scalar definition => rfl
  | union parts => exact congrArg Definition.union ((Union.rearranged_iff _ _).1 parts)
  | foreign kind => rfl

/-- The canonical form of a definition is the definition rearranged. -/
theorem Definition.rearranged_canonical (source : Definition) :
    source.Rearranged source.canonical := by
  cases source with
  | schema definition => exact .schema definition
  | object source => exact .object ((source.rearranged_iff _).2 rfl)
  | interface source => exact .interface ((source.rearranged_iff _).2 rfl)
  | inputObject source => exact .inputObject ((source.rearranged_iff _).2 rfl)
  | enum source => exact .enum ((source.rearranged_iff _).2 rfl)
  | scalar definition => exact .scalar definition
  | union source => exact .union ((source.rearranged_iff _).2 rfl)
  | foreign kind => exact .foreign kind

/-- The canonical form of a definition is the one definition that is it rearranged. -/
theorem Definition.rearranged_iff (source sorted : Definition) :
    source.Rearranged sorted ↔ sorted = source.canonical := by
  constructor
  · exact fun rearranged => rearranged.eq_canonical
  · rintro rfl
    exact source.rearranged_canonical

/-- The canonical form of a document is the one document that is it rearranged. -/
theorem Document.rearranged_iff (source sorted : Document) :
    source.Rearranged sorted ↔ sorted = source.canonical := by
  obtain ⟨definitions⟩ := source
  obtain ⟨others⟩ := sorted
  simp only [Document.Rearranged, Document.canonical, Document.mk.injEq]
  exact forall₂_iff_eq_map (fun definition _ => definition.rearranged_iff) others

/-- Fields in canonical form stay as they are. -/
theorem Composite.canonical_canonical (composite : Composite) :
    composite.canonical.canonical = composite.canonical := by
  have fixed : ((sortOn Field.name (composite.fields.map Field.canonical)).map Field.canonical) =
      sortOn Field.name (composite.fields.map Field.canonical) := by
    have arguments (field : Field) : field.canonical.canonical = field.canonical := by
      simp only [Field.canonical, sortOn_sortOn]
    rw [map_sortOn Field.name Field.name Field.canonical (fun _ => rfl), List.map_map]
    simp only [Function.comp_def, arguments]
  simp only [Composite.canonical, fixed, sortOn_sortOn]

/-- A document in canonical form stays as it is. -/
theorem Document.canonical_canonical (document : Document) :
    document.canonical.canonical = document.canonical := by
  have fixed (definition : Definition) :
      definition.canonical.canonical = definition.canonical := by
    cases definition <;>
      simp only [Definition.canonical, Composite.canonical_canonical, InputObject.canonical,
        Enum.canonical, Union.canonical, sortOn_sortOn]
  simp [Document.canonical, Function.comp_def, fixed]

end GraphQLCanon.TypeSystem
