import GraphQLCanon.Proofs.Offences
import GraphQLCanon.Proofs.SchemaRoundTrip

/-!
# Refused schemas

A schema text is formatted exactly when it is read as type-system definitions without
directives, and, where descriptions are strict, without input objects that have descriptions
on some fields only. Any other text is refused for one reason: it is not read; a definition
does not belong in a schema, and the first such one is named; else the first offence in the
order of the printing is named. Strict descriptions refuse more texts and change no result.
-/

namespace GraphQLCanon.Grammar

/-- A definition itself, without its parts. -/
def TypeSystemDefinition.carrier : TypeSystemDefinition → Carrier
  | schema _ directives _ => ⟨.schema, directives⟩
  | scalar _ name directives => ⟨.typeDefinition "scalar" name, directives⟩
  | object _ name _ directives _ => ⟨.typeDefinition "type" name, directives⟩
  | interface _ name _ directives _ => ⟨.typeDefinition "interface" name, directives⟩
  | union _ name directives _ => ⟨.typeDefinition "union" name, directives⟩
  | enum _ name directives _ => ⟨.typeDefinition "enum" name, directives⟩
  | inputObject _ name directives _ => ⟨.typeDefinition "input" name, directives⟩

/-- A field of a type, then its arguments. -/
def FieldDefinition.carriers (owner : String) (definition : FieldDefinition) : List Carrier :=
  ⟨.field owner definition.name, definition.directives⟩ ::
    definition.arguments.map fun argument =>
      ⟨.argument owner definition.name argument.name, argument.directives⟩

/-- The parts of a definition, a field in front of its arguments. -/
def TypeSystemDefinition.partCarriers : TypeSystemDefinition → List Carrier
  | object _ name _ _ fields | interface _ name _ _ fields =>
    fields.flatMap (FieldDefinition.carriers name)
  | enum _ name _ values => values.map fun value => ⟨.enumValue name value.name, value.directives⟩
  | inputObject _ name _ fields =>
    fields.map fun field => ⟨.inputField name field.name, field.directives⟩
  | schema .. | scalar .. | union .. => []

/-- A definition, then its parts. -/
def TypeSystemDefinition.carriers (definition : TypeSystemDefinition) : List Carrier :=
  definition.carrier :: definition.partCarriers

/-- True where some fields have a description and some have none. -/
def mixedDescriptions (fields : List InputValueDefinition) : Bool :=
  fields.any (·.description.isSome) && fields.any (·.description.isNone)

/-- True of an input object with described and undescribed fields. -/
def TypeSystemDefinition.isMixed : TypeSystemDefinition → Bool
  | inputObject _ _ _ fields => mixedDescriptions fields
  | schema .. | scalar .. | object .. | interface .. | union .. | enum .. => false

/-- The mixed descriptions of an input object, where descriptions are strict. -/
def TypeSystemDefinition.mixedOffences (strict : Bool) : TypeSystemDefinition → List Unsupported
  | inputObject _ name _ fields =>
    if strict && mixedDescriptions fields then [.mixedDescriptions name] else []
  | schema .. | scalar .. | object .. | interface .. | union .. | enum .. => []

/-- What is not supported in a definition: its own directives, then mixed descriptions, then
the directives of its parts. -/
def TypeSystemDefinition.offences (strict : Bool) (definition : TypeSystemDefinition) :
    List Unsupported :=
  definition.carrier.offences ++
    (definition.mixedOffences strict ++ offencesOn definition.partCarriers)

/-- The construct as which a definition is refused that does not belong in a schema. -/
def Definition.foreignToSchema? (definition : Definition) : Option Unsupported :=
  match definition with
  | typeSystem _ => none
  | extension _ => some (.extension definition.label)
  | directive source => some (.directiveDefinition source.name)
  | shorthand _ | operation _ | fragment _ => some (.inSchemaDocument definition.label)

/-- Mixed descriptions are met exactly where there are some and descriptions are strict. -/
theorem TypeSystemDefinition.mixedOffences_eq_nil {strict : Bool}
    {definition : TypeSystemDefinition} :
    definition.mixedOffences strict = [] ↔ (strict = true → definition.isMixed = false) := by
  cases definition with
  | inputObject description name directives fields =>
    cases strict <;> cases mixed : mixedDescriptions fields <;> simp [mixedOffences, isMixed, mixed]
  | schema | scalar | object | interface | union | enum => simp [mixedOffences, isMixed]

/-- Nothing is met in a definition exactly when it is without directives, and without mixed
descriptions where descriptions are strict. -/
theorem TypeSystemDefinition.offences_eq_nil {strict : Bool} {definition : TypeSystemDefinition} :
    definition.offences strict = [] ↔
      Bare definition.carriers ∧ (strict = true → definition.isMixed = false) := by
  have bare := @offencesOn_eq_nil definition.carriers
  rw [carriers, offencesOn_cons, List.append_eq_nil_iff] at bare
  rw [offences, List.append_eq_nil_iff, List.append_eq_nil_iff, mixedOffences_eq_nil, carriers,
    ← bare]
  exact ⟨fun ⟨own, mixed, parts⟩ => ⟨⟨own, parts⟩, mixed⟩,
    fun ⟨⟨own, parts⟩, mixed⟩ => ⟨own, mixed, parts⟩⟩

/-- A field has the same parts with its arguments in order. -/
theorem FieldDefinition.carriers_arranged_perm (owner : String) (definition : FieldDefinition) :
    (definition.arranged.carriers owner).Perm (definition.carriers owner) :=
  ((Text.sortOn_perm _ definition.arguments).map _).cons _

/-- Fields have the same parts in order. -/
theorem fieldCarriers_perm (owner : String) (fields : List FieldDefinition) :
    ((arrangedFields fields).flatMap (FieldDefinition.carriers owner)).Perm
      (fields.flatMap (FieldDefinition.carriers owner)) := by
  refine ((Text.sortOn_perm _ _).flatMap_right _).trans ?_
  rw [List.flatMap_map]
  exact List.Perm.flatMap_left _ fun field _ => field.carriers_arranged_perm owner

/-- A definition has the same parts arranged. -/
theorem TypeSystemDefinition.partCarriers_arranged_perm (definition : TypeSystemDefinition) :
    definition.arranged.partCarriers.Perm definition.partCarriers := by
  cases definition with
  | object description name interfaces directives fields
  | interface description name interfaces directives fields => exact fieldCarriers_perm name fields
  | enum description name directives parts | inputObject description name directives parts =>
    exact (Text.sortOn_perm _ parts).map _
  | schema | scalar | union => exact .refl _

/-- Descriptions are mixed in an arranged definition when they are in the definition. -/
theorem TypeSystemDefinition.mixedOffences_arranged (strict : Bool)
    (definition : TypeSystemDefinition) :
    definition.arranged.mixedOffences strict = definition.mixedOffences strict := by
  cases definition with
  | inputObject description name directives fields =>
    have permuted := Text.sortOn_perm InputValueDefinition.name fields
    have same : mixedDescriptions (Text.sortOn InputValueDefinition.name fields) =
        mixedDescriptions fields := by
      rw [mixedDescriptions, permuted.any_eq, permuted.any_eq, mixedDescriptions]
    rw [arranged, mixedOffences, same, mixedOffences]
  | schema | scalar | object | interface | union | enum => rfl

/-- The same is met in an arranged definition as in the definition, in another order. -/
theorem TypeSystemDefinition.offences_arranged_perm (strict : Bool)
    (definition : TypeSystemDefinition) :
    (definition.arranged.offences strict).Perm (definition.offences strict) := by
  have own : definition.arranged.carrier = definition.carrier := by cases definition <;> rfl
  rw [offences, offences, own, mixedOffences_arranged]
  exact ((offencesOn_perm definition.partCarriers_arranged_perm).append_left _).append_left _

end GraphQLCanon.Grammar

namespace GraphQLCanon.TypeSystem

open GraphQLCanon.Layout.Printing
open GraphQLCanon.Grammar (offencesOn directiveOffence?_eq_head? offencesOn_cons
  firstOffence?_carriers)

/-- A field stops the printing at the first directive on the parts of its source. -/
theorem Field.offence?_ofGrammar (owner : String) (definition : Grammar.FieldDefinition) :
    (Field.ofGrammar definition).offence? owner =
      (offencesOn (definition.carriers owner)).head? := by
  rw [Grammar.FieldDefinition.carriers, offencesOn_cons, List.head?_append]
  exact congrArg₂ Option.or (directiveOffence?_eq_head? definition.directives _)
    (firstOffence?_carriers fun argument _ => directiveOffence?_eq_head? argument.directives _)

/-- An input object stops the printing at mixed descriptions when its source has some. -/
theorem InputObject.mixedOffence?_ofGrammar (strict : Bool) (description : Option String)
    (name : String) (directives : List Grammar.Directive)
    (fields : List Grammar.InputValueDefinition) :
    (InputObject.mk ⟨name, description, Grammar.directiveNames directives⟩
        (fields.map InputValue.ofGrammar)).mixedOffence? strict =
      ((Grammar.TypeSystemDefinition.inputObject description name directives
        fields).mixedOffences strict).head? := by
  have same : (InputObject.mk ⟨name, description, Grammar.directiveNames directives⟩
      (fields.map InputValue.ofGrammar)).isMixed = Grammar.mixedDescriptions fields := by
    rw [InputObject.isMixed, InputObject.isDescribed, List.any_map, List.any_map]
    rfl
  rw [InputObject.mixedOffence?, same, Grammar.TypeSystemDefinition.mixedOffences]
  split <;> rfl

/-- A definition stops the printing at the first of what is not supported in its source. -/
theorem Definition.offence?_ofTypeSystem (strict : Bool)
    (definition : Grammar.TypeSystemDefinition) :
    (Definition.ofTypeSystem definition).offence? strict = (definition.offences strict).head? := by
  rw [Grammar.TypeSystemDefinition.offences, List.head?_append, List.head?_append]
  cases definition with
  | schema description directives roots | scalar description name directives
  | union description name directives members =>
    exact (directiveOffence?_eq_head? directives _).trans Option.or_none.symm
  | object description name interfaces directives fields
  | interface description name interfaces directives fields =>
    exact congrArg₂ Option.or (directiveOffence?_eq_head? directives _)
      (Grammar.firstOffence?_flatMap fun field _ => Field.offence?_ofGrammar name field)
  | enum description name directives values =>
    exact congrArg₂ Option.or (directiveOffence?_eq_head? directives _)
      (firstOffence?_carriers fun value _ => directiveOffence?_eq_head? value.directives _)
  | inputObject description name directives fields =>
    have mixed := InputObject.mixedOffence?_ofGrammar strict description name directives fields
    exact congrArg₂ Option.or (directiveOffence?_eq_head? directives _)
      (congrArg₂ Option.or mixed
        (firstOffence?_carriers fun field _ => directiveOffence?_eq_head? field.directives _))

/-- The canonical form of a document stops the printing at the first of what is not supported
in its arranged source. -/
theorem Document.offence?_canonical (definitions : List Grammar.TypeSystemDefinition)
    (strict : Bool) :
    (Document.mk (definitions.map Definition.ofTypeSystem)).canonical.offence? strict =
      ((definitions.map Grammar.TypeSystemDefinition.arranged).flatMap
        (Grammar.TypeSystemDefinition.offences strict)).head? := by
  rw [Document.canonical, Document.offence?, List.map_map, List.flatMap_map]
  refine Grammar.firstOffence?_map fun definition _ => ?_
  rw [← Definition.offence?_ofTypeSystem, Definition.ofTypeSystem_arranged]
  rfl

/-- A source is refused for its first definition that does not belong in a schema. -/
theorem Document.ofGrammar_of_foreign (before : List Grammar.TypeSystemDefinition)
    {definition : Grammar.Definition} {construct : Unsupported}
    (foreign : definition.foreignToSchema? = some construct) (behind : List Grammar.Definition) :
    Document.ofGrammar (before.map .typeSystem ++ definition :: behind) = .error construct := by
  have refused : Definition.ofGrammar definition = .error construct := by
    cases definition with
    | typeSystem => cases foreign
    | shorthand | operation | fragment | directive | extension =>
      cases foreign
      rfl
  have earlier : ∀ other ∈ before.map Grammar.Definition.typeSystem,
      ∃ taken, Definition.ofGrammar other = .ok taken :=
    List.forall_mem_map.2 fun source _ => ⟨.ofTypeSystem source, rfl⟩
  rw [Document.ofGrammar, mapM_eq_error earlier refused]
  rfl

end GraphQLCanon.TypeSystem

namespace GraphQLCanon

open GraphQLCanon.TypeSystem
open GraphQLCanon.Layout
open GraphQLCanon.Grammar (Bare)

/-- A schema text that has a canonical form: it is read as type-system definitions, no
directive stands on any part of them, and where descriptions are strict no input object has
described and undescribed fields. -/
def SchemaAccepted (text : String) (strict : Bool) : Prop :=
  ∃ definitions : List Grammar.TypeSystemDefinition,
    Grammar.Document.ofText text = .ok (definitions.map .typeSystem) ∧
      ∀ definition ∈ definitions,
        Bare definition.carriers ∧ (strict = true → definition.isMixed = false)

/-- Why a schema text has no canonical form. The reasons exclude each other. -/
inductive SchemaRefused (text : String) (strict : Bool) : FormatError → Prop
  /-- The text is not read. -/
  | badSyntax {error : Grammar.SyntaxError}
    (unread : Grammar.Document.ofText text = .error error) :
    SchemaRefused text strict (.badSyntax error)
  /-- The first definition that does not belong in a schema. -/
  | foreign {before : List Grammar.TypeSystemDefinition} {definition : Grammar.Definition}
    {behind : List Grammar.Definition} {construct : Unsupported}
    (read : Grammar.Document.ofText text = .ok (before.map .typeSystem ++ definition :: behind))
    (foreign : definition.foreignToSchema? = some construct) :
    SchemaRefused text strict (.unprintable (.unsupported construct))
  /-- The first construct that is not supported, in the order of the printing. -/
  | offence {definitions : List Grammar.TypeSystemDefinition} {construct : Unsupported}
    {others : List Unsupported}
    (read : Grammar.Document.ofText text = .ok (definitions.map .typeSystem))
    (met : (definitions.map Grammar.TypeSystemDefinition.arranged).flatMap
      (Grammar.TypeSystemDefinition.offences strict) = construct :: others) :
    SchemaRefused text strict (.unprintable (.unsupported construct))

/-- Nothing is met in arranged definitions exactly when they are without directives, and
without mixed descriptions where descriptions are strict. -/
theorem offences_arranged_eq_nil {definitions : List Grammar.TypeSystemDefinition} {strict : Bool} :
    (definitions.map Grammar.TypeSystemDefinition.arranged).flatMap
        (Grammar.TypeSystemDefinition.offences strict) = [] ↔
      ∀ definition ∈ definitions,
        Bare definition.carriers ∧ (strict = true → definition.isMixed = false) := by
  rw [List.flatMap_map, List.flatMap_eq_nil_iff]
  refine forall₂_congr fun definition _ => ?_
  rw [← Grammar.TypeSystemDefinition.offences_eq_nil]
  have permuted := definition.offences_arranged_perm strict
  constructor
  · intro met
    rw [met] at permuted
    exact permuted.nil_eq.symm
  · intro met
    rw [met] at permuted
    exact permuted.eq_nil

/-- Definitions that all belong in a schema are type-system definitions. -/
theorem exists_typeSystem {definitions : List Grammar.Definition}
    (belong : ∀ definition ∈ definitions, definition.foreignToSchema? = none) :
    ∃ sources : List Grammar.TypeSystemDefinition, definitions = sources.map .typeSystem := by
  induction definitions with
  | nil => exact ⟨[], rfl⟩
  | cons first others inductionHypothesis =>
    obtain ⟨one, more⟩ := List.forall_mem_cons.1 belong
    obtain ⟨sources, rfl⟩ := inductionHypothesis more
    cases first with
    | typeSystem source => exact ⟨source :: sources, rfl⟩
    | shorthand | operation | fragment | directive | extension => cases one

/-- Every schema text is accepted or refused. -/
theorem schemaAccepted_or_refused (text : String) (strict : Bool) :
    SchemaAccepted text strict ∨ ∃ error, SchemaRefused text strict error := by
  cases read : Grammar.Document.ofText text with
  | error error => exact .inr ⟨_, .badSyntax read⟩
  | ok definitions =>
    obtain belong | ⟨before, definition, behind, rfl, earlier, foreign⟩ :=
      forall_or_exists_first (fun definition => definition.foreignToSchema? = none) definitions
    · obtain ⟨sources, rfl⟩ := exists_typeSystem belong
      cases met : (sources.map Grammar.TypeSystemDefinition.arranged).flatMap
          (Grammar.TypeSystemDefinition.offences strict) with
      | nil => exact .inl ⟨sources, read, offences_arranged_eq_nil.1 met⟩
      | cons construct others => exact .inr ⟨_, .offence read met⟩
    · obtain ⟨sources, rfl⟩ := exists_typeSystem earlier
      obtain ⟨construct, named⟩ := Option.ne_none_iff_exists'.1 foreign
      exact .inr ⟨_, .foreign read named⟩

/-- The outcome of formatting type-system definitions: the first construct that is not
supported in the arranged definitions, or the piece of their canonical form. -/
theorem formatSchema_of_typeSystem {text : String}
    {definitions : List Grammar.TypeSystemDefinition}
    (read : Grammar.Document.ofText text = .ok (definitions.map .typeSystem))
    (options : Options) :
    ∃ written, formatSchema text options =
      (Printing.outcome ((definitions.map Grammar.TypeSystemDefinition.arranged).flatMap
        (Grammar.TypeSystemDefinition.offences options.strictDescriptions)).head?
          written).mapError .unprintable := by
  have taken := readTypeSystem_eq_ok.2 ⟨definitions, read, rfl⟩
  rw [formatSchema_of_read taken, Document.offence?_canonical]
  exact ⟨_, rfl⟩

/-- An accepted schema text is formatted. -/
theorem formatSchema_of_accepted {text : String} {options : Options}
    (accepted : SchemaAccepted text options.strictDescriptions) :
    ∃ result, formatSchema text options = .ok result := by
  obtain ⟨definitions, read, each⟩ := accepted
  obtain ⟨written, formatted⟩ := formatSchema_of_typeSystem read options
  rw [offences_arranged_eq_nil.2 each] at formatted
  exact ⟨_, formatted⟩

/-- A refused schema text is refused for its reason. -/
theorem formatSchema_of_refused {text : String} {options : Options} {error : FormatError}
    (refused : SchemaRefused text options.strictDescriptions error) :
    formatSchema text options = .error error := by
  cases refused with
  | badSyntax unread => simp [formatSchema, readTypeSystem, unread, bind, Except.bind]
  | foreign read foreign =>
    simp [formatSchema, readTypeSystem, read, TypeSystem.Document.ofGrammar_of_foreign _ foreign,
      bind, Except.bind, Except.mapError]
  | offence read met =>
    obtain ⟨written, formatted⟩ := formatSchema_of_typeSystem read options
    rw [met] at formatted
    exact formatted

/-- Whether descriptions are strict plays no role in what is written. -/
theorem formatSchema_strict {text result other : String} {options : Options} {strict : Bool}
    (formatted : formatSchema text options = .ok result)
    (again : formatSchema text { options with strictDescriptions := strict } = .ok other) :
    other = result := by
  obtain ⟨document, read, -, rfl⟩ := of_formatSchema formatted
  obtain ⟨same, reread, -, rfl⟩ := of_formatSchema again
  obtain rfl := Except.ok.inj (read.symm.trans reread)
  rfl

/-- A schema text is formatted exactly when it is read as type-system definitions without
directives, and without mixed descriptions where descriptions are strict. An error is the
reason for which it is refused: it is not read, else its first definition that does not
belong in a schema, else the first construct that is not supported in the order of the
printing. What is written is the same whether descriptions are strict or not. -/
theorem formatSchema_verdict (text : String) (options : Options) :
    ((∃ result, formatSchema text options = .ok result) ↔
        SchemaAccepted text options.strictDescriptions) ∧
      (∀ error, formatSchema text options = .error error ↔
        SchemaRefused text options.strictDescriptions error) ∧
      ∀ strict result other, formatSchema text options = .ok result →
        formatSchema text { options with strictDescriptions := strict } = .ok other →
          other = result := by
  have decided := except_verdict (@formatSchema_of_accepted text options)
    (fun _ refused => formatSchema_of_refused refused)
    (schemaAccepted_or_refused text options.strictDescriptions)
  exact ⟨decided.1, decided.2, fun _ _ _ => formatSchema_strict⟩

/-- Mixed descriptions are met before the directive on a field where descriptions are strict.
Without the one and the other the fields are written in the same way, strict or not. -/
theorem formatSchema_verdict_mixed :
    SchemaRefused "input I \x7b \"b\" b: Int a: Int @x \x7d" true
        (.unprintable (.unsupported (.mixedDescriptions "I"))) ∧
      SchemaRefused "input I \x7b \"b\" b: Int a: Int @x \x7d" false
        (.unprintable (.unsupported (.directive "x" (.inputField "I" "a")))) ∧
      ∃ result, formatSchema "input I \x7b b: Int a: Int \x7d" ⟨2, 80, false, by decide⟩ =
          .ok result ∧
        formatSchema "input I \x7b b: Int a: Int \x7d" ⟨2, 80, true, by decide⟩ = .ok result := by
  have mixed : formatSchema "input I \x7b \"b\" b: Int a: Int @x \x7d" ⟨2, 80, true, by decide⟩ =
      .error (.unprintable (.unsupported (.mixedDescriptions "I"))) := by
    cbv
  have carried : formatSchema "input I \x7b \"b\" b: Int a: Int @x \x7d" ⟨2, 80, false, by decide⟩ =
      .error (.unprintable (.unsupported (.directive "x" (.inputField "I" "a")))) := by
    cbv
  have formatted : formatSchema "input I \x7b b: Int a: Int \x7d" ⟨2, 80, false, by decide⟩ =
      .ok "input I \x7b\n  a: Int\n  b: Int\n\x7d" := by
    cbv
  have again : ∃ other, formatSchema "input I \x7b b: Int a: Int \x7d" ⟨2, 80, true, by decide⟩ =
      .ok other := ⟨"input I \x7b\n  a: Int\n  b: Int\n\x7d", by cbv⟩
  obtain ⟨other, again⟩ := again
  have same := (formatSchema_verdict _ ⟨2, 80, false, by decide⟩).2.2 true _ other formatted again
  exact ⟨((formatSchema_verdict _ ⟨2, 80, true, by decide⟩).2.1 _).1 mixed,
    ((formatSchema_verdict _ ⟨2, 80, false, by decide⟩).2.1 _).1 carried, other,
    same ▸ formatted, again⟩

end GraphQLCanon
