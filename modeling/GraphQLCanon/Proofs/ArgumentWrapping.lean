import GraphQLCanon.Proofs.DocumentsInARow
import GraphQLCanon.Proofs.QueryOutlines
import GraphQLCanon.Proofs.SchemaOutlines

/-!
# Where argument lists wrap

The printers decide from the length of the line that they have written so far whether an
argument list fits. What they write is the outline of the canonical form, row by row, and
there the decision is a comparison of numbers that belong to the list alone: its depth, its
header and its arguments. So nothing that was written before has a part in it.
-/

namespace GraphQLCanon

open GraphQLCanon.Layout

/-- Rounded pieces that follow outlines, with an empty line between each two, are written as
the outlines with an empty line between each two. -/
theorem intercalate_cores {α : Type} {items : List α} {piece : α → Piece}
    {rows : α → Nat → List Row} (rounded : ∀ item ∈ items, ∃ tokens, (piece item).Rounded tokens)
    (follows : ∀ item ∈ items, (piece item).Follows (rows item)) (indentWidth maxWidth : Nat) :
    "\n\n".intercalate (items.map fun item => (piece item).core (.start indentWidth maxWidth)) =
      Row.write ([Row.gap].intercalate (items.map fun item => rows item 0)) indentWidth
        maxWidth := by
  have line : ∀ item ∈ items, (piece item).core (.start indentWidth maxWidth) ++ "\n" =
      Line.stack indentWidth (Row.linesEach (rows item 0) indentWidth maxWidth) := by
    intro item inside
    obtain ⟨tokens, -, whole⟩ := rounded item inside
    rw [← follows item inside indentWidth maxWidth 0]
    exact (congrFun whole _).symm
  have some : ∀ item ∈ items, rows item 0 ≠ [] := by
    intro item inside nothing
    have broken := line item inside
    rw [nothing] at broken
    have length := congrArg String.length broken
    simp [Row.linesEach, Line.stack] at length
  rw [Row.write_intercalate_gap (by simpa using some), List.map_map]
  refine congrArg _ (List.map_congr_left fun item inside => ?_)
  have joined := line item inside
  rw [← Line.join_line indentWidth
    (Row.linesEach_ne_nil (some item inside) indentWidth maxWidth)] at joined
  exact (String.append_left_inj "\n").1 joined

variable {text result : String} {options : Options}

/-- Every definition of a query document comes from a source that the grammar admits and that is
legible. -/
theorem sources_of_readExecutable {document : Executable.Document}
    (read : readExecutable text = .ok document) :
    document.definitions ≠ [] ∧ ∀ definition ∈ document.definitions, ∃ source : Grammar.Definition,
      Executable.Definition.ofGrammar source = .ok definition ∧ source.Fits ∧
        Grammar.AllLegible source.tokens := by
  obtain ⟨definitions, readText, taken⟩ := readExecutable_eq_ok.1 read
  obtain ⟨some?, fit, legible⟩ := Grammar.Document.ofText_sound readText
  have each := Executable.Document.ofGrammar_eq_ok.1 taken
  constructor
  · intro nothing
    rw [nothing, List.forall₂_nil_right_iff] at each
    exact some? each
  · intro definition inside
    obtain ⟨source, among, own⟩ := exists_related each definition inside
    exact ⟨source, own, fit source among, legible source among⟩

/-- Every definition of a schema document comes from a source that is legible. -/
theorem sources_of_readTypeSystem {document : TypeSystem.Document}
    (read : readTypeSystem text = .ok document) :
    document.definitions ≠ [] ∧ ∀ definition ∈ document.definitions,
      ∃ source : Grammar.TypeSystemDefinition, TypeSystem.Definition.ofTypeSystem source = definition ∧
        Grammar.AllLegible source.tokens := by
  obtain ⟨definitions, readText, rfl⟩ := readTypeSystem_eq_ok.1 read
  obtain ⟨some?, -, legible⟩ := Grammar.Document.ofText_sound readText
  rw [List.forall_mem_map] at legible
  refine ⟨by simpa using some?, ?_⟩
  rw [List.forall_mem_map]
  exact fun source inside => ⟨source, rfl, legible source inside⟩

/-- The canonical form of a query is its outline. -/
theorem rows_of_formatQuery (formatted : formatQuery text options = .ok result) :
    ∃ document, readExecutable text = .ok document ∧
      Row.write document.canonical.rows options.indentWidth options.maxWidth = result := by
  obtain ⟨document, read, -, -, rounded, rfl⟩ := cores_of_formatQuery formatted
  have follows : ∀ definition ∈ document.canonical.definitions,
      definition.piece.Follows definition.rows := by
    rw [Executable.Document.canonical, List.forall_mem_map]
    intro definition inside
    obtain ⟨source, taken, fits, legible⟩ := (sources_of_readExecutable read).2 definition inside
    exact Executable.Definition.follows_canonical taken fits legible
  exact ⟨document, read, (intercalate_cores rounded follows _ _).symm⟩

/-- The canonical form of a schema is its outline. -/
theorem rows_of_formatSchema (formatted : formatSchema text options = .ok result) :
    ∃ document, readTypeSystem text = .ok document ∧
      Row.write document.canonical.rows options.indentWidth options.maxWidth = result := by
  obtain ⟨document, read, -, -, rounded, rfl⟩ := cores_of_formatSchema formatted
  have follows : ∀ definition ∈ document.canonical.definitions,
      definition.piece.Follows definition.rows := by
    rw [TypeSystem.Document.canonical, List.forall_mem_map]
    intro definition inside
    obtain ⟨source, rfl, legible⟩ := (sources_of_readTypeSystem read).2 definition inside
    exact TypeSystem.Definition.follows_canonical legible
  exact ⟨document, read, (intercalate_cores rounded follows _ _).symm⟩

/-- The canonical form is an outline whose argument lists are those of the document, each at
the number of braces around it, behind the header of its field and with its arguments in
order of their names. In the outline an argument list has one line exactly when it fits
there, and else a line for each argument, and this depends on the list and the options
only. The argument lists of a query are those of all fields with arguments, and those of a
schema belong to the fields with arguments of which none has a description. -/
theorem format_argumentLists (text result : String) (options : Options) :
    (formatQuery text options = .ok result →
      ∃ document, readExecutable text = .ok document ∧
        (Row.argumentLists document.canonical.rows).Perm document.argumentLists ∧
          Row.write document.canonical.rows options.indentWidth options.maxWidth = result) ∧
      (formatSchema text options = .ok result →
        ∃ document, readTypeSystem text = .ok document ∧
          (Row.argumentLists document.canonical.rows).Perm document.argumentLists ∧
            Row.write document.canonical.rows options.indentWidth options.maxWidth = result) := by
  constructor
  · intro formatted
    obtain ⟨document, read, written⟩ := rows_of_formatQuery formatted
    exact ⟨document, read, document.argumentLists_canonical, written⟩
  · intro formatted
    obtain ⟨document, read, written⟩ := rows_of_formatSchema formatted
    exact ⟨document, read, document.argumentLists_canonical, written⟩

set_option maxRecDepth 4000 in
/-- A list below one that wraps fits to the last column, and a description puts an argument
on a line of its own where the list would fit. -/
theorem format_argumentLists_last_column :
    (formatQuery "\x7b b(y: 1, x: 2) \x7b c(z: 3) \x7d \x7d" ⟨4, 15, false, by decide⟩ =
        .ok ("query \x7b\n    b(\n        x: 2,\n        y: 1,\n    ) \x7b\n" ++
          "        c(z: 3)\n    \x7d\n\x7d") ∧
      ∃ document, readExecutable "\x7b b(y: 1, x: 2) \x7b c(z: 3) \x7d \x7d" = .ok document ∧
        (Row.argumentLists document.canonical.rows).Perm document.argumentLists ∧
          Row.write document.canonical.rows 4 15 =
            "query \x7b\n    b(\n        x: 2,\n        y: 1,\n    ) \x7b\n" ++
              "        c(z: 3)\n    \x7d\n\x7d") ∧
      (formatSchema "type A \x7b b(y: T, x: T): T c(\"P\" z: T): T \x7d" Options.standard =
          .ok ("type A \x7b\n  b(x: T, y: T): T\n" ++
            "  c(\n    \"P\"\n    z: T,\n  ): T\n\x7d") ∧
        ∃ document,
          readTypeSystem "type A \x7b b(y: T, x: T): T c(\"P\" z: T): T \x7d" = .ok document ∧
          (Row.argumentLists document.canonical.rows).Perm document.argumentLists ∧
            Row.write document.canonical.rows 2 80 = "type A \x7b\n  b(x: T, y: T): T\n" ++
              "  c(\n    \"P\"\n    z: T,\n  ): T\n\x7d") := by
  have query : formatQuery "\x7b b(y: 1, x: 2) \x7b c(z: 3) \x7d \x7d" ⟨4, 15, false, by decide⟩ =
      .ok ("query \x7b\n    b(\n        x: 2,\n        y: 1,\n    ) \x7b\n" ++
        "        c(z: 3)\n    \x7d\n\x7d") := by
    cbv
  have schema : formatSchema "type A \x7b b(y: T, x: T): T c(\"P\" z: T): T \x7d"
      Options.standard = .ok ("type A \x7b\n  b(x: T, y: T): T\n" ++
        "  c(\n    \"P\"\n    z: T,\n  ): T\n\x7d") := by
    cbv
  have ofQuery := (format_argumentLists _ _ _).1 query
  have ofSchema := (format_argumentLists _ _ _).2 schema
  exact ⟨⟨query, ofQuery⟩, schema, ofSchema⟩

end GraphQLCanon
