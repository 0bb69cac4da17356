import Mathlib
import GraphQLCanon.Formatting
import GraphQLCanon.Proofs.Reading
import GraphQLCanon.Proofs.SchemaOrder
import GraphQLCanon.Proofs.WrittenSchemas

-- The whole library is there for evaluation: it has the equations of the core functions that
-- reading and printing a text unfold.

/-!
# Schema round trip

The canonical form of a schema text is read as the canonical form of what the text is
read as, whatever the options were. So nothing but the order of the parts of definitions
is changed by formatting, and formatting the result again under other options has the
outcome of formatting the first text under them.
-/

namespace GraphQLCanon

open GraphQLCanon.TypeSystem
open GraphQLCanon.Layout

/-- A text is read as a type-system document when its definitions all belong there. -/
theorem readTypeSystem_eq_ok {text : String} {document : TypeSystem.Document} :
    readTypeSystem text = .ok document ↔
      ∃ definitions : List Grammar.TypeSystemDefinition,
        Grammar.Document.ofText text = .ok (definitions.map .typeSystem) ∧
          document = ⟨definitions.map Definition.ofTypeSystem⟩ := by
  unfold readTypeSystem
  cases read : Grammar.Document.ofText text with
  | error error => simp
  | ok sources =>
    have taken := @TypeSystem.Document.ofGrammar_eq_ok sources document
    constructor
    · intro result
      cases converted : TypeSystem.Document.ofGrammar sources with
      | error construct => simp [converted, Except.mapError] at result
      | ok kept =>
        simp only [converted, Except.mapError, Except.ok.injEq] at result
        obtain ⟨definitions, rfl, same⟩ := taken.1 (result ▸ converted)
        exact ⟨definitions, rfl, same⟩
    · rintro ⟨definitions, same, rfl⟩
      have converted := taken.2 ⟨definitions, Except.ok.inj same, rfl⟩
      simp [converted, Except.mapError]

/-- The outcome of formatting a schema that was read: its first offence, or the piece of
its canonical form. -/
theorem formatSchema_of_read {text : String} {document : TypeSystem.Document}
    (read : readTypeSystem text = .ok document) (options : Options) :
    formatSchema text options =
      (Printing.outcome (document.canonical.offence? options.strictDescriptions)
        (document.canonical.piece (.start options.indentWidth options.maxWidth))).mapError
          .unprintable := by
  have rendered := document.render_eq options.indentWidth options.maxWidth
    options.strictDescriptions
  simp [formatSchema, read, bind, Except.bind, renderTypeSystem, rendered]

/-- A schema is formatted when it is read and nothing stops the printing. Then the result
is the piece of its canonical form. -/
theorem of_formatSchema {text result : String} {options : Options}
    (formatted : formatSchema text options = .ok result) :
    ∃ document, readTypeSystem text = .ok document ∧
      document.canonical.offence? options.strictDescriptions = none ∧
        Text.strip (document.canonical.piece (.start options.indentWidth options.maxWidth)) =
          result := by
  cases read : readTypeSystem text with
  | error error => simp [formatSchema, read, bind, Except.bind] at formatted
  | ok document =>
    rw [formatSchema_of_read read] at formatted
    cases stopped : document.canonical.offence? options.strictDescriptions with
    | some construct => simp [stopped, Printing.outcome, Except.mapError] at formatted
    | none =>
      simp only [stopped, Printing.outcome, Except.mapError, Except.ok.injEq] at formatted
      exact ⟨document, rfl, stopped, formatted⟩

/-- What is written of a schema that nothing stops spells the tokens of the arranged
source, and is read as it. -/
theorem ofText_canonicalSchema {text : String} {definitions : List Grammar.TypeSystemDefinition}
    {strict : Bool} (readText : Grammar.Document.ofText text = .ok (definitions.map .typeSystem))
    (unstopped : (Document.mk (definitions.map Definition.ofTypeSystem)).canonical.offence? strict =
      none) (indentWidth maxWidth : Int) :
    Lexical.Spells
        (Text.strip ((Document.mk (definitions.map Definition.ofTypeSystem)).canonical.piece
          (.start indentWidth maxWidth))).toList
        ((definitions.map Grammar.TypeSystemDefinition.arranged).flatMap
          Grammar.TypeSystemDefinition.tokens) ∧
      Grammar.Document.ofText
          (Text.strip ((Document.mk (definitions.map Definition.ofTypeSystem)).canonical.piece
            (.start indentWidth maxWidth))) =
        .ok ((definitions.map Grammar.TypeSystemDefinition.arranged).map .typeSystem) := by
  obtain ⟨nonempty, fit, legible⟩ := Grammar.Document.ofText_sound readText
  rw [List.forall_mem_map] at fit legible
  have some? : definitions ≠ [] := by simpa using nonempty
  have spells := TypeSystem.Document.spells_canonical some? fit legible unstopped indentWidth
    maxWidth
  have arrangedFit : ∀ definition ∈ definitions.map Grammar.TypeSystemDefinition.arranged,
      (Grammar.Definition.typeSystem definition).Fits := by
    rw [List.forall_mem_map]
    exact fun definition inside =>
      Grammar.TypeSystemDefinition.fits_arranged (fit definition inside)
  have parsed := Grammar.Parser.document_of_typeSystem (by simpa using some?) arrangedFit
  rw [List.flatMap_map] at parsed
  exact ⟨spells, Grammar.Document.ofText_of_spells spells parsed⟩

/-- What is written of a schema that nothing stops is read as its canonical form. -/
theorem readTypeSystem_canonical {text : String} {document : TypeSystem.Document} {strict : Bool}
    (read : readTypeSystem text = .ok document)
    (unstopped : document.canonical.offence? strict = none) (indentWidth maxWidth : Int) :
    readTypeSystem (Text.strip (document.canonical.piece (.start indentWidth maxWidth))) =
      .ok document.canonical := by
  obtain ⟨definitions, readText, rfl⟩ := readTypeSystem_eq_ok.1 read
  obtain ⟨-, reread⟩ := ofText_canonicalSchema readText unstopped indentWidth maxWidth
  refine readTypeSystem_eq_ok.2 ⟨_, reread, ?_⟩
  simp [TypeSystem.Document.canonical, Definition.ofTypeSystem_arranged, Function.comp_def]

/-- A schema that is formatted is read as type-system definitions, and its canonical form
spells the tokens of their arranged source and is read as it. -/
theorem arranged_of_formatSchema {text result : String} {options : Options}
    (formatted : formatSchema text options = .ok result) :
    ∃ definitions : List Grammar.TypeSystemDefinition,
      Grammar.Document.ofText text = .ok (definitions.map .typeSystem) ∧
      Lexical.Spells result.toList
        ((definitions.map Grammar.TypeSystemDefinition.arranged).flatMap
          Grammar.TypeSystemDefinition.tokens) ∧
      Grammar.Document.ofText result =
        .ok ((definitions.map Grammar.TypeSystemDefinition.arranged).map .typeSystem) := by
  obtain ⟨document, read, unstopped, rfl⟩ := of_formatSchema formatted
  obtain ⟨definitions, readText, rfl⟩ := readTypeSystem_eq_ok.1 read
  exact ⟨definitions, readText,
    ofText_canonicalSchema readText unstopped options.indentWidth options.maxWidth⟩

/-- The canonical form of a schema text is read as a document that differs from what the
text is read as in the order of the parts of definitions only: the one document with
fields, arguments, enum values and input fields in their stable order by name and union
members in order. -/
theorem formatSchema_roundTrip {text result : String} {options : Options}
    (formatted : formatSchema text options = .ok result) :
    ∃ source reread, readTypeSystem text = .ok source ∧ readTypeSystem result = .ok reread ∧
      source.Rearranged reread ∧ ∀ other, source.Rearranged other → other = reread := by
  obtain ⟨source, read, unstopped, rfl⟩ := of_formatSchema formatted
  have reread := readTypeSystem_canonical read unstopped options.indentWidth options.maxWidth
  refine ⟨source, source.canonical, read, reread, (source.rearranged_iff _).2 rfl, ?_⟩
  exact fun other rearranged => (source.rearranged_iff other).1 rearranged

/-- Fields and arguments are in order of their names, and the description of the type is
kept. -/
theorem formatSchema_roundTrip_fields :
    formatSchema "\"\"\"P\"\"\" type A \x7b\n c: T\n b(y: T = 1, x: T): T \x7d" Options.standard =
        .ok "\"P\"\ntype A \x7b\n  b(x: T, y: T = 1): T\n  c: T\n\x7d" ∧
      ∃ source reread,
        readTypeSystem "\"\"\"P\"\"\" type A \x7b\n c: T\n b(y: T = 1, x: T): T \x7d" = .ok source ∧
          readTypeSystem "\"P\"\ntype A \x7b\n  b(x: T, y: T = 1): T\n  c: T\n\x7d" = .ok reread ∧
          source.Rearranged reread ∧ ∀ other, source.Rearranged other → other = reread := by
  have formatted : formatSchema
      "\"\"\"P\"\"\" type A \x7b\n c: T\n b(y: T = 1, x: T): T \x7d" Options.standard =
        .ok "\"P\"\ntype A \x7b\n  b(x: T, y: T = 1): T\n  c: T\n\x7d" := by
    cbv
  exact ⟨formatted, formatSchema_roundTrip formatted⟩

/-- The canonical form of a schema text under some options has the outcome of the text
under any others: the same text, or the same refusal. -/
theorem formatSchema_formatSchema {text result : String} {options : Options}
    (formatted : formatSchema text options = .ok result) (others : Options) :
    formatSchema result others = formatSchema text others := by
  obtain ⟨source, read, unstopped, rfl⟩ := of_formatSchema formatted
  have reread := readTypeSystem_canonical read unstopped options.indentWidth options.maxWidth
  rw [formatSchema_of_read reread, formatSchema_of_read read, source.canonical_canonical]

/-- Mixed descriptions are refused in the canonical form as they are in the text. -/
theorem formatSchema_formatSchema_mixed :
    formatSchema "input A \x7b c: T \"P\" b: T \x7d" Options.standard =
        .ok "input A \x7b\n  \"P\"\n  b: T\n\n  c: T\n\n\x7d" ∧
      formatSchema "input A \x7b\n  \"P\"\n  b: T\n\n  c: T\n\n\x7d" ⟨2, 80, true, by decide⟩ =
        formatSchema "input A \x7b c: T \"P\" b: T \x7d" ⟨2, 80, true, by decide⟩ := by
  have formatted : formatSchema "input A \x7b c: T \"P\" b: T \x7d" Options.standard =
      .ok "input A \x7b\n  \"P\"\n  b: T\n\n  c: T\n\n\x7d" := by
    cbv
  exact ⟨formatted, formatSchema_formatSchema formatted ⟨2, 80, true, by decide⟩⟩

end GraphQLCanon
