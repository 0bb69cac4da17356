import Mathlib.Data.List.Permutation
import GraphQLCanon.Formatting
import GraphQLCanon.Proofs.SchemaPieces
import GraphQLCanon.Proofs.StablePermutation

/-!
# Reordered schemas

What it means that a schema document is another one with the parts of its definitions in
other orders: fields, arguments, enum values and input fields, where those of one name
keep their order, and union members in any order. Documents are so related exactly when
they have the same canonical form, and so the one is printed as the other, or refused for
the same construct, whether descriptions are strict or not.
-/

namespace GraphQLCanon.TypeSystem

open GraphQLCanon.Text

/-- A field with its arguments in another order, where arguments of one name keep
theirs. -/
structure Field.Reordered (source other : Field) : Prop where
  name : other.name = source.name
  type : other.type = source.type
  description : other.description = source.description
  arguments : StablyPermuted InputValue.name source.arguments other.arguments
  directives : other.directives = source.directives

/-- An object type or interface with its fields, and the arguments of each, in other
orders. Its interfaces are as they were. -/
structure Composite.Reordered (source other : Composite) : Prop where
  header : other.header = source.header
  interfaces : other.interfaces = source.interfaces
  fields : ReorderedBy Field.Reordered Field.name source.fields other.fields

/-- An input object with its fields in another order. -/
structure InputObject.Reordered (source other : InputObject) : Prop where
  header : other.header = source.header
  fields : StablyPermuted InputValue.name source.fields other.fields

/-- An enum with its values in another order. -/
structure Enum.Reordered (source other : Enum) : Prop where
  header : other.header = source.header
  values : StablyPermuted EnumValue.name source.values other.values

/-- A union with its members in any order. -/
structure Union.Reordered (source other : Union) : Prop where
  header : other.header = source.header
  members : other.members.Perm source.members

/-- A definition with its parts in other orders. Schemas and scalar types have no parts
that are put in order. -/
inductive Definition.Reordered : Definition → Definition → Prop
  | schema (definition : Schema) : Reordered (.schema definition) (.schema definition)
  | object {source other : Composite} (parts : source.Reordered other) :
    Reordered (.object source) (.object other)
  | interface {source other : Composite} (parts : source.Reordered other) :
    Reordered (.interface source) (.interface other)
  | inputObject {source other : InputObject} (parts : source.Reordered other) :
    Reordered (.inputObject source) (.inputObject other)
  | enum {source other : Enum} (parts : source.Reordered other) :
    Reordered (.enum source) (.enum other)
  | scalar (definition : Header) : Reordered (.scalar definition) (.scalar definition)
  | union {source other : Union} (parts : source.Reordered other) :
    Reordered (.union source) (.union other)
  | foreign (kind : String) : Reordered (.foreign kind) (.foreign kind)

/-- A document with every definition at its place, and its parts in other orders. -/
def Document.Reordered (source other : Document) : Prop :=
  List.Forall₂ Definition.Reordered source.definitions other.definitions

/-- Fields are reordered into one another exactly when they have one canonical form. -/
theorem Field.reordered_iff (source other : Field) :
    source.Reordered other ↔ source.canonical = other.canonical := by
  obtain ⟨name, type, description, arguments, directives⟩ := source
  obtain ⟨otherName, otherType, otherDescription, others, otherDirectives⟩ := other
  have sorted := @stablyPermuted_iff_sortOn_eq _ arguments others InputValue.name
  simp only [Field.canonical, Field.mk.injEq]
  constructor
  · rintro ⟨rfl, rfl, rfl, order, rfl⟩
    exact ⟨rfl, rfl, rfl, sorted.1 order, rfl⟩
  · rintro ⟨rfl, rfl, rfl, same, rfl⟩
    exact ⟨rfl, rfl, rfl, sorted.2 same, rfl⟩

/-- Object types and interfaces are reordered into one another exactly when they have one
canonical form. -/
theorem Composite.reordered_iff (source other : Composite) :
    source.Reordered other ↔ source.canonical = other.canonical := by
  obtain ⟨header, interfaces, fields⟩ := source
  obtain ⟨otherHeader, otherInterfaces, others⟩ := other
  have kept (field : Field) : field.canonical.name = field.name := rfl
  have sorted : ReorderedBy Field.Reordered Field.name fields others ↔
      sortOn Field.name (fields.map Field.canonical) =
        sortOn Field.name (others.map Field.canonical) :=
    reorderedBy_iff linearKeys_nameLe kept (fun field _ => field.reordered_iff) others
  simp only [Composite.canonical, Composite.mk.injEq]
  constructor
  · rintro ⟨rfl, rfl, order⟩
    exact ⟨rfl, rfl, sorted.1 order⟩
  · rintro ⟨rfl, rfl, same⟩
    exact ⟨rfl, rfl, sorted.2 same⟩

/-- Input objects are reordered into one another exactly when they have one canonical
form. -/
theorem InputObject.reordered_iff (source other : InputObject) :
    source.Reordered other ↔ source.canonical = other.canonical := by
  obtain ⟨header, fields⟩ := source
  obtain ⟨otherHeader, others⟩ := other
  have sorted := @stablyPermuted_iff_sortOn_eq _ fields others InputValue.name
  simp only [InputObject.canonical, InputObject.mk.injEq]
  constructor
  · rintro ⟨rfl, order⟩
    exact ⟨rfl, sorted.1 order⟩
  · rintro ⟨rfl, same⟩
    exact ⟨rfl, sorted.2 same⟩

/-- Enums are reordered into one another exactly when they have one canonical form. -/
theorem Enum.reordered_iff (source other : Enum) :
    source.Reordered other ↔ source.canonical = other.canonical := by
  obtain ⟨header, values⟩ := source
  obtain ⟨otherHeader, others⟩ := other
  have sorted := @stablyPermuted_iff_sortOn_eq _ values others EnumValue.name
  simp only [Enum.canonical, Enum.mk.injEq]
  constructor
  · rintro ⟨rfl, order⟩
    exact ⟨rfl, sorted.1 order⟩
  · rintro ⟨rfl, same⟩
    exact ⟨rfl, sorted.2 same⟩

/-- Unions are reordered into one another exactly when they have one canonical form. -/
theorem Union.reordered_iff (source other : Union) :
    source.Reordered other ↔ source.canonical = other.canonical := by
  obtain ⟨header, members⟩ := source
  obtain ⟨otherHeader, others⟩ := other
  have sorted := @stablyPermuted_iff_sortOn_eq _ members others id
  simp only [Union.canonical, Union.mk.injEq]
  constructor
  · rintro ⟨rfl, permuted⟩
    exact ⟨rfl, sorted.1 (.of_perm permuted)⟩
  · rintro ⟨rfl, same⟩
    exact ⟨rfl, (sorted.2 same).permuted⟩

/-- A reordered definition has the canonical form of the definition. -/
theorem Definition.Reordered.canonical_eq {source other : Definition}
    (reordered : source.Reordered other) : source.canonical = other.canonical := by
  cases reordered with
  | schema definition => rfl
  | object parts => exact congrArg Definition.object ((Composite.reordered_iff _ _).1 parts)
  | interface parts => exact congrArg Definition.interface ((Composite.reordered_iff _ _).1 parts)
  | inputObject parts =>
    exact congrArg Definition.inputObject ((InputObject.reordered_iff _ _).1 parts)
  | enum parts => exact congrArg Definition.enum ((Enum.reordered_iff _ _).1 parts)
  | scalar definition => rfl
  | union parts => exact congrArg Definition.union ((Union.reordered_iff _ _).1 parts)
  | foreign kind => rfl

/-- A definition with the canonical form of another one is it reordered. -/
theorem Definition.reordered_of_canonical_eq {source other : Definition}
    (same : source.canonical = other.canonical) : source.Reordered other := by
  cases source <;> cases other <;> simp only [Definition.canonical, reduceCtorEq,
    schema.injEq, object.injEq, interface.injEq, inputObject.injEq, enum.injEq, scalar.injEq,
    union.injEq, foreign.injEq] at same
  case schema.schema => exact same ▸ .schema _
  case object.object => exact .object ((Composite.reordered_iff _ _).2 same)
  case interface.interface => exact .interface ((Composite.reordered_iff _ _).2 same)
  case inputObject.inputObject => exact .inputObject ((InputObject.reordered_iff _ _).2 same)
  case enum.enum => exact .enum ((Enum.reordered_iff _ _).2 same)
  case scalar.scalar => exact same ▸ .scalar _
  case union.union => exact .union ((Union.reordered_iff _ _).2 same)
  case foreign.foreign => exact same ▸ .foreign _

/-- Definitions are reordered into one another exactly when they have one canonical
form. -/
theorem Definition.reordered_iff (source other : Definition) :
    source.Reordered other ↔ source.canonical = other.canonical :=
  ⟨Definition.Reordered.canonical_eq, Definition.reordered_of_canonical_eq⟩

/-- Documents are reordered into one another exactly when they have one canonical
form. -/
theorem Document.reordered_iff (source other : Document) :
    source.Reordered other ↔ source.canonical = other.canonical := by
  rw [Document.canonical, Document.canonical, Document.mk.injEq]
  exact forall₂_iff_map_eq (fun definition _ => definition.reordered_iff) _

end GraphQLCanon.TypeSystem

namespace GraphQLCanon

open GraphQLCanon.TypeSystem

/-- A schema document and the same with the parts of its definitions in other orders, where
parts of one name keep their order and union members need not, have one outcome of
rendering under all options: one text, or one construct that is not supported. -/
theorem renderTypeSystem_of_reordered {source other : TypeSystem.Document}
    (reordered : source.Reordered other) (options : Options) :
    (∃ text, renderTypeSystem source options = .ok text ∧
      renderTypeSystem other options = .ok text) ∨
    ∃ construct, renderTypeSystem source options = .error (.unsupported construct) ∧
      renderTypeSystem other options = .error (.unsupported construct) := by
  have same : renderTypeSystem other options = renderTypeSystem source options := by
    rw [renderTypeSystem, renderTypeSystem, Document.render, Document.render,
      (source.reordered_iff other).1 reordered]
  have rendered := source.render_eq options.indentWidth options.maxWidth options.strictDescriptions
  rw [same, renderTypeSystem, rendered]
  cases source.canonical.offence? options.strictDescriptions with
  | none => exact .inl ⟨_, rfl, rfl⟩
  | some construct => exact .inr ⟨construct, rfl, rfl⟩

/-- The fields of a type change places, and so do the arguments of one of them and the
members of a union. Both documents are printed as one text. -/
theorem renderTypeSystem_of_reordered_fields :
    let source : TypeSystem.Document :=
      ⟨[.object ⟨⟨"A", none, []⟩, [], [⟨"c", "T", none, [], []⟩,
          ⟨"b", "T", none, [⟨"y", "T", none, none, []⟩, ⟨"x", "T", none, none, []⟩], []⟩]⟩,
        .union ⟨⟨"U", none, []⟩, ["B", "A", "B"]⟩]⟩
    let other : TypeSystem.Document :=
      ⟨[.object ⟨⟨"A", none, []⟩, [],
          [⟨"b", "T", none, [⟨"x", "T", none, none, []⟩, ⟨"y", "T", none, none, []⟩], []⟩,
            ⟨"c", "T", none, [], []⟩]⟩,
        .union ⟨⟨"U", none, []⟩, ["B", "B", "A"]⟩]⟩
    let text := "type A \x7b\n  b(x: T, y: T): T\n  c: T\n\x7d\n\nunion U = A | B | B"
    source.Reordered other ∧ renderTypeSystem source Options.standard = .ok text ∧
      renderTypeSystem other Options.standard = .ok text := by
  intro source other text
  have arguments : Field.Reordered
      ⟨"b", "T", none, [⟨"y", "T", none, none, []⟩, ⟨"x", "T", none, none, []⟩], []⟩
      ⟨"b", "T", none, [⟨"x", "T", none, none, []⟩, ⟨"y", "T", none, none, []⟩], []⟩ :=
    ⟨rfl, rfl, rfl, .swap (by decide) [], rfl⟩
  have unchanged := (Field.reordered_iff ⟨"c", "T", none, [], []⟩ _).2 rfl
  have reordered : source.Reordered other :=
    .cons (.object ⟨rfl, rfl, _, .cons unchanged (.cons arguments .nil), .swap (by decide) []⟩)
      (.cons (.union ⟨rfl, by decide⟩) .nil)
  have sorted : source.canonical =
      ⟨[.object ⟨⟨"A", none, []⟩, [],
          [⟨"b", "T", none, [⟨"x", "T", none, none, []⟩, ⟨"y", "T", none, none, []⟩], []⟩,
            ⟨"c", "T", none, [], []⟩]⟩,
        .union ⟨⟨"U", none, []⟩, ["A", "B", "B"]⟩]⟩ := by
    cbv
  have printed : renderTypeSystem source Options.standard = .ok text := by
    rw [renderTypeSystem, Document.render_eq, sorted]
    decide +kernel
  rcases renderTypeSystem_of_reordered reordered Options.standard with
    ⟨result, ofSource, ofOther⟩ | ⟨construct, ofSource, -⟩
  · obtain rfl := Except.ok.inj (printed.symm.trans ofSource)
    exact ⟨reordered, printed, ofOther⟩
  · rw [printed] at ofSource
    cases ofSource

end GraphQLCanon
