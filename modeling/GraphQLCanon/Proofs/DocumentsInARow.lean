import GraphQLCanon.Proofs.ScanAppend
import GraphQLCanon.Proofs.DefinitionLocality
import GraphQLCanon.Proofs.QueryRoundTrip
import GraphQLCanon.Proofs.SchemaRoundTrip

/-!
# Documents one behind the other

A canonical form is the texts of its definitions with an empty line between each two, and
the text of a definition depends on the definition and the widths only. A text behind a line
feed is read as it is read alone. So the canonical form of two texts with a line feed
between them is the canonical form of the first one, an empty line, and that of the second
one.
-/

namespace GraphQLCanon

open GraphQLCanon.Layout

section Reading

open GraphQLCanon.Grammar

variable {first second : String}

/-- Two texts with a line feed between them have the tokens of both, if the first one has no
fault. -/
theorem scan_joined (faultless : (Lexical.scan first.toList).fault = none) :
    (Lexical.scan (first ++ "\n" ++ second).toList).tokens =
        (Lexical.scan first.toList).tokens ++ (Lexical.scan second.toList).tokens ∧
      (Lexical.scan (first ++ "\n" ++ second).toList).fault =
        (Lexical.scan second.toList).fault := by
  have split : (first ++ "\n" ++ second).toList = first.toList ++ '\n' :: second.toList := by
    simp
  rw [split, Lexical.scan_line faultless]
  refine ⟨?_, rfl⟩
  simp [Lexical.Scan.tokens, Lexical.Lexeme.before]

/-- Operations and fragments are read behind a line feed as they are read alone. -/
theorem readExecutable_joined {one two : Executable.Document}
    (readFirst : readExecutable first = .ok one) (readSecond : readExecutable second = .ok two) :
    readExecutable (first ++ "\n" ++ second) = .ok ⟨one.definitions ++ two.definitions⟩ := by
  obtain ⟨definitions, readOne, takenOne⟩ := readExecutable_eq_ok.1 readFirst
  obtain ⟨others, readTwo, takenTwo⟩ := readExecutable_eq_ok.1 readSecond
  obtain ⟨faultlessOne, _, parsedOne⟩ := Document.ofText_eq_ok.1 readOne
  obtain ⟨faultlessTwo, _, parsedTwo⟩ := Document.ofText_eq_ok.1 readTwo
  obtain ⟨rfl, -⟩ := Parser.document_eq_ok.1 parsedOne
  obtain ⟨rfl, -⟩ := Parser.document_eq_ok.1 parsedTwo
  obtain ⟨tokens, fault⟩ := @scan_joined first second faultlessOne
  have parsed := Parser.document_append_of_executables parsedOne parsedTwo
    (Executable.Document.executable_of_ofGrammar takenOne)
  rw [← tokens] at parsed
  refine readExecutable_eq_ok.2 ⟨definitions ++ others,
    Document.ofText_eq_ok.2 ⟨fault.trans faultlessTwo, _, parsed⟩, ?_⟩
  have eachOne := Executable.Document.ofGrammar_eq_ok.1 takenOne
  have eachTwo := Executable.Document.ofGrammar_eq_ok.1 takenTwo
  exact Executable.Document.ofGrammar_eq_ok.2 (List.rel_append eachOne eachTwo)

/-- Type-system definitions are read behind a line feed as they are read alone. -/
theorem readTypeSystem_joined {one two : TypeSystem.Document}
    (readFirst : readTypeSystem first = .ok one) (readSecond : readTypeSystem second = .ok two) :
    readTypeSystem (first ++ "\n" ++ second) = .ok ⟨one.definitions ++ two.definitions⟩ := by
  obtain ⟨definitions, readOne, rfl⟩ := readTypeSystem_eq_ok.1 readFirst
  obtain ⟨others, readTwo, rfl⟩ := readTypeSystem_eq_ok.1 readSecond
  obtain ⟨faultlessOne, _, parsedOne⟩ := Document.ofText_eq_ok.1 readOne
  obtain ⟨faultlessTwo, _, parsedTwo⟩ := Document.ofText_eq_ok.1 readTwo
  obtain ⟨rfl, -⟩ := Parser.document_eq_ok.1 parsedOne
  obtain ⟨rfl, -⟩ := Parser.document_eq_ok.1 parsedTwo
  obtain ⟨tokens, fault⟩ := @scan_joined first second faultlessOne
  have parsed := Parser.document_append_of_typeSystem parsedOne parsedTwo
  rw [← tokens] at parsed
  refine readTypeSystem_eq_ok.2 ⟨definitions ++ others,
    Document.ofText_eq_ok.2 ⟨fault.trans faultlessTwo, _, parsed⟩, ?_⟩
  rw [List.map_append]

end Reading

section Writing

variable {text result : String} {options : Options}

/-- The canonical form of a query is the texts of its definitions, with an empty line
between each two. -/
theorem cores_of_formatQuery (formatted : formatQuery text options = .ok result) :
    ∃ document, readExecutable text = .ok document ∧ document.canonical.offence? = none ∧
      document.canonical.definitions ≠ [] ∧
      (∀ definition ∈ document.canonical.definitions, ∃ tokens, definition.piece.Rounded tokens) ∧
      "\n\n".intercalate (document.canonical.definitions.map fun definition =>
        definition.piece.core (.start options.indentWidth options.maxWidth)) = result := by
  obtain ⟨document, read, unstopped, rfl⟩ := formatQuery_eq_ok.1 formatted
  obtain ⟨definitions, readText, taken⟩ := readExecutable_eq_ok.1 read
  obtain ⟨some?, fit, legible⟩ := Grammar.Document.ofText_sound readText
  have pairs := Executable.Document.rounded_canonical taken fit legible unstopped
  have nonempty : document.canonical.definitions ≠ [] := by
    intro nothing
    rw [nothing, List.forall₂_nil_right_iff] at pairs
    exact some? (List.map_eq_nil_iff.1 pairs)
  have rounded : ∀ definition ∈ document.canonical.definitions,
      ∃ tokens, definition.piece.Rounded tokens := by
    intro definition inside
    obtain ⟨source, -, own⟩ := exists_related pairs definition inside
    exact ⟨source.tokens, own⟩
  exact ⟨document, read, unstopped, nonempty, rounded,
    (Piece.strip_concat_rounded rfl rfl nonempty rounded).symm⟩

/-- The canonical form of a schema is the texts of its definitions, with an empty line
between each two. -/
theorem cores_of_formatSchema (formatted : formatSchema text options = .ok result) :
    ∃ document, readTypeSystem text = .ok document ∧
      document.canonical.offence? options.strictDescriptions = none ∧
      document.canonical.definitions ≠ [] ∧
      (∀ definition ∈ document.canonical.definitions, ∃ tokens, definition.piece.Rounded tokens) ∧
      "\n\n".intercalate (document.canonical.definitions.map fun definition =>
        definition.piece.core (.start options.indentWidth options.maxWidth)) = result := by
  obtain ⟨document, read, unstopped, rfl⟩ := of_formatSchema formatted
  obtain ⟨definitions, readText, rfl⟩ := readTypeSystem_eq_ok.1 read
  obtain ⟨some?, fit, legible⟩ := Grammar.Document.ofText_sound readText
  rw [List.forall_mem_map] at fit legible
  have pairs := TypeSystem.Document.rounded_canonical fit legible unstopped
  have nonempty : (TypeSystem.Document.mk (definitions.map
      TypeSystem.Definition.ofTypeSystem)).canonical.definitions ≠ [] := by
    simpa [TypeSystem.Document.canonical] using some?
  have rounded : ∀ definition ∈ (TypeSystem.Document.mk (definitions.map
      TypeSystem.Definition.ofTypeSystem)).canonical.definitions,
      ∃ tokens, definition.piece.Rounded tokens := by
    intro definition inside
    obtain ⟨source, -, own⟩ := exists_related pairs definition inside
    exact ⟨source.tokens, own⟩
  exact ⟨_, read, unstopped, nonempty, rounded,
    (Piece.strip_concat_rounded rfl rfl nonempty rounded).symm⟩

/-- Rounded pieces behind others are written behind an empty line. -/
theorem strip_concat_append {α : Type} {piece : α → Piece} {left right : List α}
    (someLeft : left ≠ []) (someRight : right ≠ [])
    (roundedLeft : ∀ item ∈ left, ∃ tokens, (piece item).Rounded tokens)
    (roundedRight : ∀ item ∈ right, ∃ tokens, (piece item).Rounded tokens)
    (indentWidth maxWidth : Int) :
    Text.strip (Piece.concat (left ++ right) (fun item => piece item ++ Piece.text "\n")
        (.start indentWidth maxWidth)) =
      "\n\n".intercalate (left.map fun item => (piece item).core (.start indentWidth maxWidth)) ++
        "\n\n" ++
        "\n\n".intercalate (right.map fun item =>
          (piece item).core (.start indentWidth maxWidth)) := by
  refine (Piece.strip_concat_rounded rfl rfl (List.append_ne_nil_of_left_ne_nil someLeft right)
    (List.forall_mem_append.2 ⟨roundedLeft, roundedRight⟩)).trans ?_
  rw [List.map_append, String.intercalate_append_of_ne_nil (by simpa using someLeft)
    (by simpa using someRight)]

variable {first second one two : String}

/-- The canonical form of a query behind another one. -/
theorem formatQuery_joined (formattedFirst : formatQuery first options = .ok one)
    (formattedSecond : formatQuery second options = .ok two) :
    formatQuery (first ++ "\n" ++ second) options = .ok (one ++ "\n\n" ++ two) := by
  obtain ⟨left, readLeft, unstoppedLeft, someLeft, roundedLeft, rfl⟩ :=
    cores_of_formatQuery formattedFirst
  obtain ⟨right, readRight, unstoppedRight, someRight, roundedRight, rfl⟩ :=
    cores_of_formatQuery formattedSecond
  have canonical_eq : (Executable.Document.mk (left.definitions ++ right.definitions)).canonical =
      ⟨left.canonical.definitions ++ right.canonical.definitions⟩ := by
    simp [Executable.Document.canonical]
  refine formatQuery_eq_ok.2 ⟨_, readExecutable_joined readLeft readRight, ?_, ?_⟩
  · simp only [canonical_eq, Executable.Document.offence?, Printing.firstOffence?_eq_none,
      List.forall_mem_append] at unstoppedLeft unstoppedRight ⊢
    exact ⟨unstoppedLeft, unstoppedRight⟩
  · rw [canonical_eq]
    exact strip_concat_append someLeft someRight roundedLeft roundedRight _ _

/-- The canonical form of a schema behind another one. -/
theorem formatSchema_joined (formattedFirst : formatSchema first options = .ok one)
    (formattedSecond : formatSchema second options = .ok two) :
    formatSchema (first ++ "\n" ++ second) options = .ok (one ++ "\n\n" ++ two) := by
  obtain ⟨left, readLeft, unstoppedLeft, someLeft, roundedLeft, rfl⟩ :=
    cores_of_formatSchema formattedFirst
  obtain ⟨right, readRight, unstoppedRight, someRight, roundedRight, rfl⟩ :=
    cores_of_formatSchema formattedSecond
  have canonical_eq : (TypeSystem.Document.mk (left.definitions ++ right.definitions)).canonical =
      ⟨left.canonical.definitions ++ right.canonical.definitions⟩ := by
    simp [TypeSystem.Document.canonical]
  have unstopped : (TypeSystem.Document.mk (left.canonical.definitions ++
      right.canonical.definitions)).offence? options.strictDescriptions = none := by
    simp only [TypeSystem.Document.offence?, Printing.firstOffence?_eq_none,
      List.forall_mem_append] at unstoppedLeft unstoppedRight ⊢
    exact ⟨unstoppedLeft, unstoppedRight⟩
  rw [formatSchema_of_read (readTypeSystem_joined readLeft readRight), canonical_eq, unstopped]
  exact congrArg Except.ok (strip_concat_append someLeft someRight roundedLeft roundedRight _ _)

/-- The canonical form of two texts with a line feed between them is that of the first one,
an empty line, and that of the second one. This holds of queries and of schemas, and under
all options. -/
theorem format_joined (first second one two : String) (options : Options) :
    (formatQuery first options = .ok one → formatQuery second options = .ok two →
        formatQuery (first ++ "\n" ++ second) options = .ok (one ++ "\n\n" ++ two)) ∧
      (formatSchema first options = .ok one → formatSchema second options = .ok two →
        formatSchema (first ++ "\n" ++ second) options = .ok (one ++ "\n\n" ++ two)) :=
  ⟨formatQuery_joined, formatSchema_joined⟩

set_option maxRecDepth 4000 in
/-- A comment at the end of the first text ends there, and a type without fields does not get
those of the next one. -/
theorem format_joined_open_ends :
    formatQuery ("\x7b b a \x7d # end" ++ "\n" ++ "\x7b c \x7d") Options.standard =
        .ok ("query \x7b\n  a\n  b\n\x7d" ++ "\n\n" ++ "query \x7b\n  c\n\x7d") ∧
      formatSchema ("type A" ++ "\n" ++ "type B \x7b c: Int \x7d") Options.standard =
        .ok ("type A" ++ "\n\n" ++ "type B \x7b\n  c: Int\n\x7d") := by
  refine ⟨(format_joined _ _ _ _ _).1 ?_ ?_, (format_joined _ _ _ _ _).2 ?_ ?_⟩
  · cbv
  · cbv
  · cbv
  · cbv

end Writing

end GraphQLCanon
