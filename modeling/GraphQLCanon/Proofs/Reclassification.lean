import GraphQLCanon.Proofs.QueryRoundTrip
import GraphQLCanon.Proofs.SchemaRoundTrip

/-!
# Results as texts

What happens to a canonical form that is taken as a text again. It is its own canonical
form when it is classified as the text was. Otherwise it is refused: a query has no
definition that belongs in a schema, and a schema none that belongs in a query. What is
written back to a file is read as the canonical form again, since that has no blanks at
its ends and no carriage return.
-/

namespace GraphQLCanon

section OtherKind

variable {text : String} (options : Options)

/-- Operations and fragments are refused as a schema. -/
theorem formatSchema_of_executable {definitions : Grammar.Document}
    (read : Grammar.Document.ofText text = .ok definitions)
    (executable : ∀ definition ∈ definitions, definition.isExecutable = true) :
    ∃ construct, formatSchema text options = .error (.unprintable (.unsupported construct)) := by
  obtain ⟨nonempty, -, -⟩ := Grammar.Document.ofText_sound read
  obtain ⟨first, others, rfl⟩ := List.exists_cons_of_ne_nil nonempty
  have refused : TypeSystem.Document.ofGrammar (first :: others) =
      .error (.inSchemaDocument first.label) := by
    have own := executable first List.mem_cons_self
    have one : TypeSystem.Definition.ofGrammar first = .error (.inSchemaDocument first.label) := by
      cases first <;> first | rfl | cases own
    simp [TypeSystem.Document.ofGrammar, List.mapM_cons, one, bind, Except.bind, Except.map]
  refine ⟨.inSchemaDocument first.label, ?_⟩
  simp [formatSchema, readTypeSystem, read, refused, bind, Except.bind, Except.mapError]

/-- Type-system definitions are refused as a query. -/
theorem formatQuery_of_typeSystem {definitions : List Grammar.TypeSystemDefinition}
    (read : Grammar.Document.ofText text = .ok (definitions.map .typeSystem)) :
    ∃ construct, formatQuery text options = .error (.unprintable (.unsupported construct)) := by
  obtain ⟨nonempty, -, -⟩ := Grammar.Document.ofText_sound read
  cases definitions with
  | nil => exact absurd rfl nonempty
  | cons first others =>
    refine ⟨.inQueryDocument (Grammar.Definition.typeSystem first).label, ?_⟩
    have refused : Executable.Document.ofGrammar ((first :: others).map .typeSystem) =
        .error (.inQueryDocument (Grammar.Definition.typeSystem first).label) := by
      simp [Executable.Document.ofGrammar, List.mapM_cons, Executable.Definition.ofGrammar, bind,
        Except.bind, Except.map]
    rw [List.map_cons] at read refused
    simp [formatQuery, readExecutable, read, refused, bind, Except.bind, Except.mapError]

end OtherKind

variable {text result : String} {options : Options}

/-- The canonical form of a query is its own canonical form as a query. -/
theorem formatQuery_result (formatted : formatQuery text options = .ok result) :
    formatQuery result options = .ok result := by
  obtain ⟨source, read, unstopped, rfl⟩ := formatQuery_eq_ok.1 formatted
  have reread := readExecutable_canonical read unstopped options.indentWidth options.maxWidth
  refine formatQuery_eq_ok.2 ⟨source.canonical, reread, ?_, ?_⟩
  · rw [source.canonical_canonical]
    exact unstopped
  · rw [source.canonical_canonical]

/-- The canonical form of a schema is its own canonical form as a schema. -/
theorem formatSchema_result (formatted : formatSchema text options = .ok result) :
    formatSchema result options = .ok result := by
  obtain ⟨source, read, unstopped, rfl⟩ := of_formatSchema formatted
  have reread := readTypeSystem_canonical read unstopped options.indentWidth options.maxWidth
  rw [formatSchema_of_read reread, source.canonical_canonical, unstopped]
  rfl

/-- A text is formatted as what it is classified as. -/
theorem formatText_eq (text : String) (options : Options) :
    formatText text options =
      if isSchema text = true then formatSchema text options else formatQuery text options := by
  unfold formatText
  cases isSchema text <;> rfl

/-- The canonical form of a text is its own canonical form when it is classified as the
text is. -/
theorem formatText_result_of_same (formatted : formatText text options = .ok result)
    (same : isSchema result = isSchema text) : formatText result options = .ok result := by
  rw [formatText_eq] at formatted ⊢
  rw [same]
  by_cases schema : isSchema text = true
  · rw [if_pos schema] at formatted ⊢
    exact formatSchema_result formatted
  · rw [if_neg schema] at formatted ⊢
    exact formatQuery_result formatted

/-- The canonical form of a query is refused as a schema. -/
theorem formatSchema_of_formatQuery (formatted : formatQuery text options = .ok result) :
    ∃ construct, formatSchema result options = .error (.unprintable (.unsupported construct)) := by
  obtain ⟨definitions, -, executable, -, reread⟩ := arranged_of_formatQuery formatted
  refine formatSchema_of_executable options reread ?_
  rw [List.forall_mem_map]
  intro definition inside
  have own := executable definition inside
  cases definition <;> first | rfl | cases own

/-- The canonical form of a text is refused when it is classified otherwise. -/
theorem formatText_result_of_other (formatted : formatText text options = .ok result)
    (other : isSchema result ≠ isSchema text) :
    ∃ construct, formatText result options = .error (.unprintable (.unsupported construct)) := by
  rw [formatText_eq] at formatted ⊢
  by_cases schema : isSchema text = true
  · have query : ¬isSchema result = true := by
      rw [schema] at other
      exact other
    rw [if_pos schema] at formatted
    rw [if_neg query]
    obtain ⟨definitions, -, -, reread⟩ := arranged_of_formatSchema formatted
    exact formatQuery_of_typeSystem options reread
  · have flipped : isSchema result = true := by
      rw [Bool.not_eq_true] at schema
      rw [schema] at other
      simpa using other
    rw [if_neg schema] at formatted
    rw [if_pos flipped]
    exact formatSchema_of_formatQuery formatted

/-- The canonical form of a text is its own canonical form exactly when it is classified
as the text is. -/
theorem formatText_result_iff (formatted : formatText text options = .ok result) :
    formatText result options = .ok result ↔ isSchema result = isSchema text := by
  constructor
  · intro again
    by_contra other
    obtain ⟨construct, refused⟩ := formatText_result_of_other formatted other
    rw [again] at refused
    cases refused
  · exact formatText_result_of_same formatted

/-- A canonical form that has a canonical form is that form. -/
theorem eq_of_formatText_result (formatted : formatText text options = .ok result)
    {other : String} (again : formatText result options = .ok other) : other = result := by
  by_cases same : isSchema result = isSchema text
  · rw [formatText_result_of_same formatted same] at again
    exact (Except.ok.inj again).symm
  · obtain ⟨construct, refused⟩ := formatText_result_of_other formatted same
    rw [refused] at again
    cases again

/-- A canonical form has no blanks at its ends, and no carriage return. -/
theorem plain_of_formatText (formatted : formatText text options = .ok result) :
    Text.strip result = result ∧ '\r' ∉ result.toList := by
  rw [formatText_eq] at formatted
  by_cases schema : isSchema text = true
  · rw [if_pos schema] at formatted
    obtain ⟨document, -, -, written⟩ := of_formatSchema formatted
    obtain ⟨definitions, -, spells, -⟩ := arranged_of_formatSchema formatted
    exact ⟨by rw [← written, Text.strip_strip], spells.returnless⟩
  · rw [if_neg schema] at formatted
    obtain ⟨document, -, -, written⟩ := formatQuery_eq_ok.1 formatted
    obtain ⟨definitions, -, -, spells, -⟩ := arranged_of_formatQuery formatted
    exact ⟨by rw [← written, Text.strip_strip], spells.returnless⟩

end GraphQLCanon
