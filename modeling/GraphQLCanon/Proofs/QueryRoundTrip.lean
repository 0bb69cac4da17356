import Mathlib
import GraphQLCanon.Formatting
import GraphQLCanon.Proofs.Reading
import GraphQLCanon.Proofs.WrittenQueries

-- The whole library is there for evaluation: it has the equations of the core functions that
-- reading and printing a text unfold.

/-!
# Query round trip

The canonical form of a query text is read as the canonical form of what the text is
read as, whatever the widths were. So nothing but the order of selections and arguments
is changed by formatting, and formatting the result again under other widths is
formatting the first text under them.
-/

namespace GraphQLCanon

open GraphQLCanon.Executable
open GraphQLCanon.Layout

/-- A text is read as an executable document when its definitions are all executable. -/
theorem readExecutable_eq_ok {text : String} {document : Executable.Document} :
    readExecutable text = .ok document ↔
      ∃ definitions, Grammar.Document.ofText text = .ok definitions ∧
        Executable.Document.ofGrammar definitions = .ok document := by
  unfold readExecutable
  cases Grammar.Document.ofText text with
  | error error => simp
  | ok definitions =>
    cases taken : Executable.Document.ofGrammar definitions <;> simp [taken, Except.mapError]

/-- A query is formatted when it is read and no directive stops the printing. Then the
result is the piece of its canonical form. -/
theorem formatQuery_eq_ok {text result : String} {options : Options} :
    formatQuery text options = .ok result ↔
      ∃ document, readExecutable text = .ok document ∧ document.canonical.offence? = none ∧
        Text.strip (document.canonical.piece (.start options.indentWidth options.maxWidth)) =
          result := by
  unfold formatQuery
  cases readExecutable text with
  | error error => simp [bind, Except.bind]
  | ok document =>
    have rendered := document.render_eq options.indentWidth options.maxWidth
    cases stopped : document.canonical.offence? <;>
      simp [bind, Except.bind, renderExecutable, rendered, stopped, Printing.outcome,
        Except.mapError]

/-- What is written of a query that no directive stops spells the tokens of the arranged
source, and is read as it. -/
theorem ofText_canonicalQuery {text : String} {definitions : Grammar.Document}
    {document : Executable.Document} (readText : Grammar.Document.ofText text = .ok definitions)
    (taken : Executable.Document.ofGrammar definitions = .ok document)
    (unstopped : document.canonical.offence? = none) (indentWidth maxWidth : Int) :
    Lexical.Spells
        (Text.strip (document.canonical.piece (.start indentWidth maxWidth))).toList
        ((definitions.map Grammar.Definition.arranged).flatMap Grammar.Definition.tokens) ∧
      Grammar.Document.ofText
          (Text.strip (document.canonical.piece (.start indentWidth maxWidth))) =
        .ok (definitions.map Grammar.Definition.arranged) := by
  obtain ⟨nonempty, fit, legible⟩ := Grammar.Document.ofText_sound readText
  have spells := Document.spells_canonical taken nonempty fit legible unstopped indentWidth maxWidth
  have arrangedTaken := Document.ofGrammar_arranged taken
  have arrangedFit : ∀ definition ∈ definitions.map Grammar.Definition.arranged,
      definition.Fits := by
    rw [List.forall_mem_map]
    exact fun definition inside => Grammar.Definition.fits_arranged (fit definition inside)
  have parsed := Grammar.Parser.document_of_executables (by simpa using nonempty)
    (Document.executable_of_ofGrammar arrangedTaken) arrangedFit
  exact ⟨spells, Grammar.Document.ofText_of_spells spells parsed⟩

/-- What is written of a query that no directive stops is read as its canonical form. -/
theorem readExecutable_canonical {text : String} {document : Executable.Document}
    (read : readExecutable text = .ok document)
    (unstopped : document.canonical.offence? = none) (indentWidth maxWidth : Int) :
    readExecutable (Text.strip (document.canonical.piece (.start indentWidth maxWidth))) =
      .ok document.canonical := by
  obtain ⟨definitions, readText, taken⟩ := readExecutable_eq_ok.1 read
  -- What is read back is not the source of the text but the source of the canonical form:
  -- descriptions are lost and a shorthand has gained its keyword.
  obtain ⟨-, reread⟩ := ofText_canonicalQuery readText taken unstopped indentWidth maxWidth
  exact readExecutable_eq_ok.2 ⟨_, reread, Document.ofGrammar_arranged taken⟩

/-- A query that is formatted is read as operations and fragments, and its canonical form
spells the tokens of their arranged source and is read as it. -/
theorem arranged_of_formatQuery {text result : String} {options : Options}
    (formatted : formatQuery text options = .ok result) :
    ∃ definitions, Grammar.Document.ofText text = .ok definitions ∧
      (∀ definition ∈ definitions, definition.isExecutable = true) ∧
      Lexical.Spells result.toList
        ((definitions.map Grammar.Definition.arranged).flatMap Grammar.Definition.tokens) ∧
      Grammar.Document.ofText result = .ok (definitions.map Grammar.Definition.arranged) := by
  obtain ⟨document, read, unstopped, rfl⟩ := formatQuery_eq_ok.1 formatted
  obtain ⟨definitions, readText, taken⟩ := readExecutable_eq_ok.1 read
  exact ⟨definitions, readText, Document.executable_of_ofGrammar taken,
    ofText_canonicalQuery readText taken unstopped options.indentWidth options.maxWidth⟩

/-- The canonical form of a query text is read as a document that differs from what the
text is read as in the order of selections and arguments only: the one document with
each selection list in the stable order of its keys and each argument list in the stable
order of its names. -/
theorem formatQuery_roundTrip {text result : String} {options : Options}
    (formatted : formatQuery text options = .ok result) :
    ∃ source reread, readExecutable text = .ok source ∧ readExecutable result = .ok reread ∧
      source.Rearranged reread ∧ ∀ other, source.Rearranged other → other = reread := by
  obtain ⟨source, read, unstopped, rfl⟩ := formatQuery_eq_ok.1 formatted
  have reread := readExecutable_canonical read unstopped options.indentWidth options.maxWidth
  refine ⟨source, source.canonical, read, reread, (source.rearranged_iff _).2 rfl, ?_⟩
  exact fun other rearranged => (source.rearranged_iff other).1 rearranged

set_option maxRecDepth 4000 in
/-- Fields stand in front of fields with selections, and arguments are in order of their
names. -/
theorem formatQuery_roundTrip_nested :
    formatQuery "\x7b b(y: 1, x: 2) \x7b d c \x7d a \x7d" Options.standard =
        .ok "query \x7b\n  a\n  b(x: 2, y: 1) \x7b\n    c\n    d\n  \x7d\n\x7d" ∧
      ∃ source reread,
        readExecutable "\x7b b(y: 1, x: 2) \x7b d c \x7d a \x7d" = .ok source ∧
          readExecutable "query \x7b\n  a\n  b(x: 2, y: 1) \x7b\n    c\n    d\n  \x7d\n\x7d" =
            .ok reread ∧
          source.Rearranged reread ∧ ∀ other, source.Rearranged other → other = reread := by
  have formatted : formatQuery "\x7b b(y: 1, x: 2) \x7b d c \x7d a \x7d" Options.standard =
      .ok "query \x7b\n  a\n  b(x: 2, y: 1) \x7b\n    c\n    d\n  \x7d\n\x7d" := by
    cbv
  exact ⟨formatted, formatQuery_roundTrip formatted⟩

/-- A query text that is formatted under some options is formatted under any others, and
its first canonical form is formatted in the same way under them. -/
theorem formatQuery_formatQuery {text result : String} {options : Options}
    (formatted : formatQuery text options = .ok result) (others : Options) :
    ∃ other, formatQuery text others = .ok other ∧ formatQuery result others = .ok other := by
  obtain ⟨source, read, unstopped, rfl⟩ := formatQuery_eq_ok.1 formatted
  have reread := readExecutable_canonical read unstopped options.indentWidth options.maxWidth
  have again : source.canonical.canonical.offence? = none := by
    rw [source.canonical_canonical]
    exact unstopped
  refine ⟨_, formatQuery_eq_ok.2 ⟨source, read, unstopped, rfl⟩, ?_⟩
  exact formatQuery_eq_ok.2 ⟨source.canonical, reread, again, by rw [source.canonical_canonical]⟩

set_option maxRecDepth 4000 in
/-- Arguments that stood on lines of their own stand on one line again. -/
theorem formatQuery_formatQuery_narrow :
    formatQuery "\x7b pet(size: 1, kind: DOG) \x7d" ⟨4, 20, false, by decide⟩ =
        .ok "query \x7b\n    pet(\n        kind: DOG,\n        size: 1,\n    )\n\x7d" ∧
      ∃ other, formatQuery "\x7b pet(size: 1, kind: DOG) \x7d" Options.standard = .ok other ∧
        formatQuery "query \x7b\n    pet(\n        kind: DOG,\n        size: 1,\n    )\n\x7d"
          Options.standard = .ok other := by
  have formatted : formatQuery "\x7b pet(size: 1, kind: DOG) \x7d" ⟨4, 20, false, by decide⟩ =
      .ok "query \x7b\n    pet(\n        kind: DOG,\n        size: 1,\n    )\n\x7d" := by
    cbv
  exact ⟨formatted, formatQuery_formatQuery formatted Options.standard⟩

end GraphQLCanon
