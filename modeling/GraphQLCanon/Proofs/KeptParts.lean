import GraphQLCanon.Proofs.QueryTokens
import GraphQLCanon.Proofs.SchemaTokens

/-!
# Descriptions and root operations behind formatting

What formatting keeps of the descriptions and of the entries for root operations, from
the source of a text to the source of its result. All descriptions of schemas and types
are kept. The descriptions of operations, fragments and variables have no place in the
printed document, and neither has an entry that a later one overwrites: they are lost,
and no error says so.
-/

namespace GraphQLCanon.Grammar

/-- The entries for root operations in a type-system definition. -/
def TypeSystemDefinition.rootEntries : TypeSystemDefinition → List (OperationType × String)
  | schema _ _ roots => roots
  | _ => []

/-- The entries for root operations in a definition. -/
def Definition.rootEntries : Definition → List (OperationType × String)
  | typeSystem definition => definition.rootEntries
  | extension addition => addition.rootEntries
  | _ => []

/-- The descriptions that have no place in a printed document: those of operations and
fragments. -/
def Definition.lostDescriptions (definition : Definition) : List String :=
  if definition.isExecutable then definition.descriptions else []

/-- The entries for root operations that later ones overwrite. -/
def Definition.lostEntries : Definition → List (OperationType × String)
  | typeSystem definition => definition.overwritten
  | _ => []

/-- What formatting makes of the descriptions and root operations of a source: each is
found in the rewritten source or lost, and the lost ones are those without a place. -/
structure Kept (source rewritten : Document) : Prop where
  descriptions :
    (rewritten.flatMap Definition.descriptions ++
      source.flatMap Definition.lostDescriptions).Perm (source.flatMap Definition.descriptions)
  rootEntries :
    (rewritten.flatMap Definition.rootEntries ++
      source.flatMap Definition.lostEntries).Perm (source.flatMap Definition.rootEntries)

/-- True when a source has the descriptions and root operations of another, the same
number of times. -/
def SameParts (source rewritten : Document) : Prop :=
  (rewritten.flatMap Definition.descriptions).Perm (source.flatMap Definition.descriptions) ∧
    (rewritten.flatMap Definition.rootEntries).Perm (source.flatMap Definition.rootEntries)

/-- What is left behind some items is all of them exactly when nothing is lost. -/
theorem perm_iff_of_append_perm {α : Type} {left lost all : List α}
    (together : (left ++ lost).Perm all) : left.Perm all ↔ lost = [] := by
  constructor
  · intro same
    have sum := together.length_eq
    rw [List.length_append] at sum
    have length := same.length_eq
    exact List.length_eq_zero_iff.1 (by omega)
  · rintro rfl
    simpa using together

/-- Everything is found again exactly when nothing is without a place. -/
theorem Kept.sameParts_iff {source rewritten : Document} (kept : Kept source rewritten) :
    SameParts source rewritten ↔
      source.flatMap Definition.lostDescriptions = [] ∧
        source.flatMap Definition.lostEntries = [] :=
  and_congr (perm_iff_of_append_perm kept.descriptions) (perm_iff_of_append_perm kept.rootEntries)

section Queries

variable {definition : Definition}

/-- An arranged operation or fragment has no descriptions. -/
theorem descriptions_arranged (executable : definition.isExecutable = true) :
    definition.arranged.descriptions = [] := by
  cases definition with
  | shorthand selections => rfl
  | operation source =>
    simp [Definition.arranged, Definition.descriptions, OperationDefinition.descriptions,
      VariableDefinition.descriptions, List.flatMap_map]
  | fragment source => rfl
  | typeSystem source | directive source | extension source => cases executable

/-- Operations and fragments have no entries for root operations, arranged or not. -/
theorem rootEntries_eq_nil (executable : definition.isExecutable = true) :
    definition.arranged.rootEntries = [] ∧ definition.rootEntries = [] ∧
      definition.lostEntries = [] := by
  cases definition with
  | shorthand selections => exact ⟨rfl, rfl, rfl⟩
  | operation source => exact ⟨rfl, rfl, rfl⟩
  | fragment source => exact ⟨rfl, rfl, rfl⟩
  | typeSystem source | directive source | extension source => cases executable

/-- Of operations and fragments all descriptions are lost. -/
theorem kept_of_executable {definitions : Document}
    (executable : ∀ definition ∈ definitions, definition.isExecutable = true) :
    Kept definitions (definitions.map Definition.arranged) where
  descriptions := by
    have none : (definitions.map Definition.arranged).flatMap Definition.descriptions = [] := by
      rw [List.flatMap_map, List.flatMap_eq_nil_iff]
      exact fun definition inside => descriptions_arranged (executable definition inside)
    have lost : definitions.flatMap Definition.lostDescriptions =
        definitions.flatMap Definition.descriptions :=
      List.flatMap_congr fun definition inside => if_pos (executable definition inside)
    rw [none, lost]
    exact .refl _
  rootEntries := by
    have each := fun definition inside => rootEntries_eq_nil (executable definition inside)
    have rewritten : (definitions.map Definition.arranged).flatMap Definition.rootEntries = [] := by
      rw [List.flatMap_map, List.flatMap_eq_nil_iff]
      exact fun definition inside => (each definition inside).1
    have source : definitions.flatMap Definition.rootEntries = [] :=
      List.flatMap_eq_nil_iff.2 fun definition inside => (each definition inside).2.1
    have lost : definitions.flatMap Definition.lostEntries = [] :=
      List.flatMap_eq_nil_iff.2 fun definition inside => (each definition inside).2.2
    rw [rewritten, source, lost]
    exact .refl _

end Queries

section Schemas

/-- A field keeps its descriptions with its arguments in order. -/
theorem FieldDefinition.descriptions_arranged_perm (definition : FieldDefinition) :
    definition.arranged.descriptions.Perm definition.descriptions :=
  ((Text.sortOn_perm _ definition.arguments).flatMap_right _).append_left _

/-- A definition keeps the descriptions of its parts with the parts in order. -/
theorem partDescriptions_arranged_perm (definition : TypeSystemDefinition) :
    definition.arranged.partDescriptions.Perm definition.partDescriptions := by
  cases definition with
  | schema description directives roots => exact .refl _
  | scalar description name directives => exact .refl _
  | object description name interfaces directives fields
  | interface description name interfaces directives fields =>
    have sorted := (Text.sortOn_perm FieldDefinition.name
      (fields.map FieldDefinition.arranged)).flatMap_right FieldDefinition.descriptions
    rw [List.flatMap_map] at sorted
    exact sorted.trans (List.Perm.flatMap_left fields fun field _ =>
      field.descriptions_arranged_perm)
  | union description name directives members => exact .refl _
  | enum description name directives values
  | inputObject description name directives values =>
    exact (Text.sortOn_perm _ values).flatMap_right _

/-- A definition keeps its descriptions with its parts in order. -/
theorem TypeSystemDefinition.descriptions_arranged_perm (definition : TypeSystemDefinition) :
    definition.arranged.descriptions.Perm definition.descriptions := by
  have own : definition.arranged.description? = definition.description? := by
    cases definition <;> rfl
  rw [TypeSystemDefinition.descriptions, TypeSystemDefinition.descriptions, own]
  exact (partDescriptions_arranged_perm definition).append_left _

/-- A definition keeps the entries for root operations that are not overwritten. -/
theorem TypeSystemDefinition.rootEntries_arranged_perm (definition : TypeSystemDefinition) :
    (definition.arranged.rootEntries ++ definition.overwritten).Perm definition.rootEntries := by
  cases definition with
  | schema description directives roots => exact settledRoots_append_perm roots
  | scalar | object | interface | union | enum | inputObject => exact .refl _

/-- Of type-system definitions only the entries that are overwritten are lost. -/
theorem kept_of_typeSystem (definitions : List TypeSystemDefinition) :
    Kept (definitions.map Definition.typeSystem)
      ((definitions.map TypeSystemDefinition.arranged).map Definition.typeSystem) where
  descriptions := by
    have lost : (definitions.map Definition.typeSystem).flatMap Definition.lostDescriptions =
        [] := by
      rw [List.flatMap_map, List.flatMap_eq_nil_iff]
      exact fun definition _ => rfl
    rw [lost, List.append_nil, List.flatMap_map, List.flatMap_map, List.flatMap_map]
    exact List.Perm.flatMap_left definitions fun definition _ =>
      definition.descriptions_arranged_perm
  rootEntries := by
    rw [List.flatMap_map, List.flatMap_map, List.flatMap_map, List.flatMap_map]
    exact (List.flatMap_append_perm definitions _ _).trans
      (List.Perm.flatMap_left definitions fun definition _ =>
        definition.rootEntries_arranged_perm)

end Schemas

end GraphQLCanon.Grammar

namespace GraphQLCanon

open GraphQLCanon.Grammar

/-- The source of what is formatted and the source of the result have the same
descriptions and entries for root operations, the same number of times, apart from those
that have no place in the printed document: descriptions of operations, fragments and
variables, and entries that a later entry for the same operation overwrites. So all are
found again exactly when the source has none of these. -/
theorem kept_formatted {text result : String} {options : Options}
    (formatted : formatQuery text options = .ok result ∨
      formatSchema text options = .ok result) :
    ∃ source rewritten : Grammar.Document, Grammar.Document.ofText text = .ok source ∧
      Grammar.Document.ofText result = .ok rewritten ∧ Kept source rewritten ∧
      (SameParts source rewritten ↔
        source.flatMap Definition.lostDescriptions = [] ∧
          source.flatMap Definition.lostEntries = []) := by
  rcases formatted with query | schema
  · obtain ⟨definitions, read, executable, -, reread⟩ := arranged_of_formatQuery query
    have kept := kept_of_executable executable
    exact ⟨definitions, _, read, reread, kept, kept.sameParts_iff⟩
  · obtain ⟨definitions, read, -, reread⟩ := arranged_of_formatSchema schema
    have kept := kept_of_typeSystem definitions
    exact ⟨_, _, read, reread, kept, kept.sameParts_iff⟩

/-- The first of two entries for one operation is lost. -/
theorem kept_formatted_overwritten :
    formatSchema "\"S\" schema \x7b query: A query: B \x7d" Options.standard =
        .ok "\"S\"\nschema \x7b\n  query: B\n\x7d" ∧
      ∃ source rewritten : Grammar.Document,
        Grammar.Document.ofText "\"S\" schema \x7b query: A query: B \x7d" = .ok source ∧
        Grammar.Document.ofText "\"S\"\nschema \x7b\n  query: B\n\x7d" = .ok rewritten ∧
        Kept source rewritten ∧
        (SameParts source rewritten ↔
          source.flatMap Definition.lostDescriptions = [] ∧
            source.flatMap Definition.lostEntries = []) := by
  have formatted : formatSchema "\"S\" schema \x7b query: A query: B \x7d" Options.standard =
      .ok "\"S\"\nschema \x7b\n  query: B\n\x7d" := by
    cbv
  exact ⟨formatted, kept_formatted (.inr formatted)⟩

set_option maxRecDepth 4000 in
/-- The description of an operation is not found in the source of the result, and neither
is the first of two entries for one operation. -/
theorem formatted_not_sameParts :
    ¬(∀ (text result : String) (options : Options) (source rewritten : Grammar.Document),
      formatQuery text options = .ok result →
        Grammar.Document.ofText text = .ok source →
          Grammar.Document.ofText result = .ok rewritten → SameParts source rewritten) ∧
    ¬∀ (text result : String) (options : Options) (source rewritten : Grammar.Document),
      formatSchema text options = .ok result →
        Grammar.Document.ofText text = .ok source →
          Grammar.Document.ofText result = .ok rewritten → SameParts source rewritten := by
  constructor
  · intro all
    have formatted : formatQuery "\"Finds.\" query Q \x7b a \x7d" Options.standard =
        .ok "query Q \x7b\n  a\n\x7d" := by
      cbv
    have read : Grammar.Document.ofText "\"Finds.\" query Q \x7b a \x7d" =
        .ok [.operation ⟨some "Finds.", .query, some "Q", [], [], [.field none "a" [] [] []]⟩] := by
      cbv
    have reread : Grammar.Document.ofText "query Q \x7b\n  a\n\x7d" =
        .ok [.operation ⟨none, .query, some "Q", [], [], [.field none "a" [] [] []]⟩] := by
      cbv
    have lost := (all _ _ _ _ _ formatted read reread).1.length_eq
    contradiction
  · intro all
    have formatted : formatSchema "schema \x7b query: A query: B \x7d" Options.standard =
        .ok "schema \x7b\n  query: B\n\x7d" := by
      cbv
    have read : Grammar.Document.ofText "schema \x7b query: A query: B \x7d" =
        .ok [.typeSystem (.schema none [] [(.query, "A"), (.query, "B")])] := by
      cbv
    have reread : Grammar.Document.ofText "schema \x7b\n  query: B\n\x7d" =
        .ok [.typeSystem (.schema none [] [(.query, "B")])] := by
      cbv
    have lost := (all _ _ _ _ _ formatted read reread).2.length_eq
    contradiction

end GraphQLCanon
