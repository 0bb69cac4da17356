import GraphQLCanon.TypeSystem.Canonical
import GraphQLCanon.TypeSystem.OfGrammar
import GraphQLCanon.Proofs.Admissible
import GraphQLCanon.Proofs.Itemwise
import GraphQLCanon.Proofs.StableOrder
import GraphQLCanon.Proofs.TokenOrder

/-!
# Sources of canonical schemas

The canonical form of a schema document has a source: the source of the document with
the parts of its definitions in order. Of several entries for one root operation it has
the last one only, and the root operations stand in the order in which they are written.
It is admitted by the grammar when the first source is, and has the same tokens apart
from the entries that do not count.
-/

namespace GraphQLCanon.Grammar

open GraphQLCanon.Lexical
open GraphQLCanon.TypeSystem (rootType?)

/-- The root operations in the order in which they are written. -/
def writtenOperations : List OperationType := [.mutation, .query, .subscription]

/-- The entries that give every root operation its type, if it has one, in the order in
which they are written. -/
def rootsOf (type? : OperationType → Option String) : List (OperationType × String) :=
  writtenOperations.filterMap fun operation =>
    (type? operation).map fun type => (operation, type)

/-- The entries that count, in the order in which they are written. -/
def settledRoots (roots : List (OperationType × String)) : List (OperationType × String) :=
  rootsOf (rootType? roots)

/-- A definition with the entries for root operations that count. -/
def TypeSystemDefinition.settled : TypeSystemDefinition → TypeSystemDefinition
  | schema description directives roots => .schema description directives (settledRoots roots)
  | other => other

/-- A field of a source with its arguments in order. -/
def FieldDefinition.arranged (definition : FieldDefinition) : FieldDefinition :=
  { definition with arguments := Text.sortOn InputValueDefinition.name definition.arguments }

/-- Fields of a source in order, with their arguments in order. -/
def arrangedFields (fields : List FieldDefinition) : List FieldDefinition :=
  Text.sortOn FieldDefinition.name (fields.map FieldDefinition.arranged)

/-- A definition of a source with its parts in order. -/
def TypeSystemDefinition.arranged : TypeSystemDefinition → TypeSystemDefinition
  | schema description directives roots => .schema description directives (settledRoots roots)
  | scalar description name directives => .scalar description name directives
  | object description name interfaces directives fields =>
    .object description name interfaces directives (arrangedFields fields)
  | interface description name interfaces directives fields =>
    .interface description name interfaces directives (arrangedFields fields)
  | union description name directives members =>
    .union description name directives (Text.sortOn id members)
  | enum description name directives values =>
    .enum description name directives (Text.sortOn EnumValueDefinition.name values)
  | inputObject description name directives fields =>
    .inputObject description name directives (Text.sortOn InputValueDefinition.name fields)

/-- The type of a root operation has an entry. -/
theorem mem_rootsOf {type? : OperationType → Option String} {operation : OperationType}
    {type : String} (found : type? operation = some type) : (operation, type) ∈ rootsOf type? := by
  have listed : operation ∈ writtenOperations := by cases operation <;> decide
  exact List.mem_filterMap.2 ⟨operation, listed, by rw [found]; rfl⟩

/-- The last entry for a root operation is an entry. -/
theorem mem_of_rootType? {roots : List (OperationType × String)} {operation : OperationType}
    {type : String} (found : rootType? roots operation = some type) :
    (operation, type) ∈ roots := by
  obtain ⟨⟨named, given⟩, last, rfl⟩ := Option.map_eq_some_iff.1 found
  obtain rfl : named = operation := by simpa using List.find?_some last
  exact List.mem_reverse.1 (List.mem_of_find?_eq_some last)

/-- The entries that count are entries. -/
theorem mem_of_mem_settledRoots {roots : List (OperationType × String)}
    {root : OperationType × String} (inside : root ∈ settledRoots roots) : root ∈ roots := by
  obtain ⟨operation, -, given⟩ := List.mem_filterMap.1 inside
  obtain ⟨type, found, rfl⟩ := Option.map_eq_some_iff.1 given
  exact mem_of_rootType? found

/-- Where there are entries, one of them counts. -/
theorem settledRoots_ne_nil {roots : List (OperationType × String)} (nonempty : roots ≠ []) :
    settledRoots roots ≠ [] := by
  obtain ⟨⟨operation, type⟩, others, rfl⟩ := List.exists_cons_of_ne_nil nonempty
  have some? : (rootType? ((operation, type) :: others) operation).isSome = true := by
    simp [rootType?]
  obtain ⟨last, found⟩ := Option.isSome_iff_exists.1 some?
  exact List.ne_nil_of_mem (mem_rootsOf found)

/-- Every root operation has the type that its entry gives. -/
theorem rootType?_rootsOf (type? : OperationType → Option String) (operation : OperationType) :
    rootType? (rootsOf type?) operation = type? operation := by
  unfold rootsOf writtenOperations rootType?
  cases mutation : type? .mutation <;> cases query : type? .query <;>
    cases subscription : type? .subscription <;> cases operation <;>
      simp [mutation, query, subscription]

/-- The entries that count give the same types. -/
theorem rootType?_settledRoots (roots : List (OperationType × String))
    (operation : OperationType) :
    rootType? (settledRoots roots) operation = rootType? roots operation :=
  rootType?_rootsOf (rootType? roots) operation

end GraphQLCanon.Grammar

namespace GraphQLCanon.TypeSystem

open GraphQLCanon.Grammar (arrangedFields rootType?_settledRoots)

/-- An arranged field is a source of the canonical form of the field. -/
theorem Field.ofGrammar_arranged (definition : Grammar.FieldDefinition) :
    Field.ofGrammar definition.arranged = (Field.ofGrammar definition).canonical := by
  have sorted := Text.map_sortOn Grammar.InputValueDefinition.name InputValue.name
    InputValue.ofGrammar (fun _ => rfl) definition.arguments
  simp only [Field.ofGrammar, Grammar.FieldDefinition.arranged, Field.canonical, sorted]

/-- Arranged fields are sources of the canonical fields of a type. -/
theorem map_arrangedFields (fields : List Grammar.FieldDefinition) :
    (arrangedFields fields).map Field.ofGrammar =
      Text.sortOn Field.name ((fields.map Field.ofGrammar).map Field.canonical) := by
  have changed : (fields.map Grammar.FieldDefinition.arranged).map Field.ofGrammar =
      (fields.map Field.ofGrammar).map Field.canonical := by
    rw [List.map_map, List.map_map]
    exact List.map_congr_left fun definition _ => Field.ofGrammar_arranged definition
  rw [arrangedFields, ← changed]
  exact Text.map_sortOn Grammar.FieldDefinition.name Field.name Field.ofGrammar (fun _ => rfl) _

/-- An arranged definition is a source of the canonical form of the definition. -/
theorem Definition.ofTypeSystem_arranged (definition : Grammar.TypeSystemDefinition) :
    Definition.ofTypeSystem definition.arranged =
      (Definition.ofTypeSystem definition).canonical := by
  cases definition with
  | schema description directives roots =>
    simp only [Grammar.TypeSystemDefinition.arranged, ofTypeSystem, rootType?_settledRoots,
      Definition.canonical]
  | scalar description name directives => rfl
  | object description name interfaces directives fields
  | interface description name interfaces directives fields =>
    simp only [Grammar.TypeSystemDefinition.arranged, ofTypeSystem, map_arrangedFields,
      Definition.canonical, Composite.canonical]
  | union description name directives members => rfl
  | enum description name directives values =>
    have sorted := Text.map_sortOn Grammar.EnumValueDefinition.name EnumValue.name
      EnumValue.ofGrammar (fun _ => rfl) values
    simp only [Grammar.TypeSystemDefinition.arranged, ofTypeSystem, sorted, Definition.canonical,
      Enum.canonical]
  | inputObject description name directives fields =>
    have sorted := Text.map_sortOn Grammar.InputValueDefinition.name InputValue.name
      InputValue.ofGrammar (fun _ => rfl) fields
    simp only [Grammar.TypeSystemDefinition.arranged, ofTypeSystem, sorted, Definition.canonical,
      InputObject.canonical]

/-- A definition is taken from a type-system definition. -/
theorem Definition.ofGrammar_eq_ok {source : Grammar.Definition} {definition : Definition}
    (taken : Definition.ofGrammar source = .ok definition) :
    ∃ inner, source = .typeSystem inner ∧ definition = Definition.ofTypeSystem inner := by
  cases source with
  | typeSystem inner =>
    cases taken
    exact ⟨inner, rfl, rfl⟩
  | shorthand _ | operation _ | fragment _ | directive _ | extension _ => cases taken

/-- Definitions that are taken one by one are taken from type-system definitions. -/
theorem sources_of_ofGrammar {definitions : List Grammar.Definition} {taken : List Definition}
    (each : List.Forall₂ (fun source definition => Definition.ofGrammar source = .ok definition)
      definitions taken) :
    ∃ sources : List Grammar.TypeSystemDefinition,
      definitions = sources.map Grammar.Definition.typeSystem ∧
        taken = sources.map Definition.ofTypeSystem := by
  induction each with
  | nil => exact ⟨[], rfl, rfl⟩
  | cons one _ inductionHypothesis =>
    obtain ⟨inner, rfl, rfl⟩ := Definition.ofGrammar_eq_ok one
    obtain ⟨sources, rfl, rfl⟩ := inductionHypothesis
    exact ⟨inner :: sources, rfl, rfl⟩

/-- A type-system document has a source of type-system definitions, and is taken from
them one by one. -/
theorem Document.ofGrammar_eq_ok {definitions : List Grammar.Definition} {document : Document} :
    Document.ofGrammar definitions = .ok document ↔
      ∃ sources : List Grammar.TypeSystemDefinition,
        definitions = sources.map Grammar.Definition.typeSystem ∧
          document = ⟨sources.map Definition.ofTypeSystem⟩ := by
  constructor
  · intro taken
    cases mapped : definitions.mapM Definition.ofGrammar with
    | error construct =>
      rw [Document.ofGrammar, mapped] at taken
      cases taken
    | ok kept =>
      rw [Document.ofGrammar, mapped] at taken
      cases taken
      obtain ⟨sources, rfl, rfl⟩ := sources_of_ofGrammar (mapM_eq_ok_iff.1 mapped)
      exact ⟨sources, rfl, rfl⟩
  · rintro ⟨sources, rfl, rfl⟩
    have mapped : (sources.map Grammar.Definition.typeSystem).mapM Definition.ofGrammar =
        .ok (sources.map Definition.ofTypeSystem) := by
      rw [mapM_eq_ok_iff, List.forall₂_map_left_iff, List.forall₂_map_right_iff,
        List.forall₂_same]
      exact fun _ _ => rfl
    rw [Document.ofGrammar, mapped]
    rfl

end GraphQLCanon.TypeSystem

namespace GraphQLCanon.Grammar

open GraphQLCanon.Lexical

/-- A field that fits does so with its arguments in order. -/
theorem FieldDefinition.fits_arranged {definition : FieldDefinition} (fits : definition.Fits) :
    definition.arranged.Fits where
  arguments argument inside :=
    fits.arguments argument ((Text.sortOn_perm _ definition.arguments).mem_iff.1 inside)
  type := fits.type
  directives := fits.directives

/-- Fields that fit do so in order. -/
theorem fits_arrangedFields {fields : List FieldDefinition} (fit : ∀ field ∈ fields, field.Fits) :
    ∀ field ∈ arrangedFields fields, field.Fits := by
  intro field inside
  obtain ⟨source, member, rfl⟩ := List.mem_map.1 ((Text.sortOn_perm _ _).mem_iff.1 inside)
  exact FieldDefinition.fits_arranged (fit source member)

/-- A definition that fits does so with its parts in order. -/
theorem TypeSystemDefinition.fits_arranged {definition : TypeSystemDefinition}
    (fits : (Definition.typeSystem definition).Fits) :
    (Definition.typeSystem definition.arranged).Fits := by
  obtain ⟨parts, roots⟩ := fits
  cases definition with
  | schema description directives roots' => exact ⟨parts, settledRoots_ne_nil roots⟩
  | scalar description name directives => exact ⟨parts, trivial⟩
  | object description name interfaces directives fields
  | interface description name interfaces directives fields =>
    exact ⟨⟨parts.1, fits_arrangedFields parts.2⟩, trivial⟩
  | union description name directives members => exact ⟨parts, trivial⟩
  | enum description name directives values
  | inputObject description name directives values =>
    exact ⟨⟨parts.1, fun part inside =>
      parts.2 part ((Text.sortOn_perm _ values).mem_iff.1 inside)⟩, trivial⟩

/-- A field has the same tokens with its arguments in order. -/
theorem FieldDefinition.tokens_arranged_perm (definition : FieldDefinition) :
    definition.arranged.tokens.Perm definition.tokens :=
  .append_left _ (.cons _ (.append_right _
    (enclosedTokens_perm _ _ (Text.sortOn_perm _ definition.arguments))))

/-- Fields have the same tokens in order. -/
theorem fieldTokens_perm (fields : List FieldDefinition) :
    (enclosedTokens .openBrace .closeBrace FieldDefinition.tokens (arrangedFields fields)).Perm
      (enclosedTokens .openBrace .closeBrace FieldDefinition.tokens fields) :=
  (enclosedTokens_perm _ _ (Text.sortOn_perm _ _)).trans
    (enclosedTokens_map_perm _ _ fun field _ => field.tokens_arranged_perm)

/-- Union members have the same tokens in order. -/
theorem memberTokens_perm (members : List String) :
    (memberTokens (Text.sortOn id members)).Perm (memberTokens members) := by
  have permuted := Text.sortOn_perm id members
  unfold memberTokens
  rw [permuted.isEmpty_eq]
  split
  · exact .refl _
  · exact (separatedTokens_perm _ permuted).cons _

/-- A definition has the same tokens with its parts in order, where only the entries for
root operations that count are written. -/
theorem TypeSystemDefinition.tokens_arranged_perm (definition : TypeSystemDefinition) :
    definition.arranged.tokens.Perm definition.settled.tokens := by
  cases definition with
  | schema description directives roots => exact .refl _
  | scalar description name directives => exact .refl _
  | object description name interfaces directives fields
  | interface description name interfaces directives fields =>
    exact .append_left _ (.cons _ (.cons _ (.append_left _ (.append_left _
      (fieldTokens_perm fields)))))
  | union description name directives members =>
    exact .append_left _ (.cons _ (.cons _ (.append_left _ (memberTokens_perm members))))
  | enum description name directives values
  | inputObject description name directives values =>
    exact .append_left _ (.cons _ (.cons _ (.append_left _
      (enclosedTokens_perm _ _ (Text.sortOn_perm _ values)))))

/-- The tokens of an arranged definition are legible when those of the definition
are. -/
theorem TypeSystemDefinition.legible_arranged {definition : TypeSystemDefinition}
    (legible : AllLegible definition.tokens) : AllLegible definition.arranged.tokens := by
  refine AllLegible.of_perm ?_ definition.tokens_arranged_perm
  cases definition with
  | schema description directives roots =>
    simp only [settled, tokens, bodyTokens, description?, allLegible_append, allLegible_cons,
      allLegible_enclosedTokens] at legible ⊢
    obtain ⟨described, keyword, directives, entries⟩ := legible
    exact ⟨described, keyword, directives,
      fun root inside => entries root (mem_of_mem_settledRoots inside)⟩
  | scalar | object | interface | union | enum | inputObject => exact legible

end GraphQLCanon.Grammar
