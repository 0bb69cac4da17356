import GraphQLCanon.Proofs.QueryTokens
import GraphQLCanon.Proofs.Reclassification
import GraphQLCanon.Proofs.SchemaLines

/-!
# What canonical forms are taken for

The kind of a text is read off its lines. In the canonical form of a query every line of its own
begins with a keyword, a closing brace or its indentation, so it is taken for a schema only
by a line of a block string, and is then refused. In the canonical form of a schema the line of
a schema block stands at the beginning, whatever was written above it.
-/

namespace GraphQLCanon.Layout.Row

/-- No line of these rows comes before a depth. -/
def Deep (rows : List Row) (depth : Nat) : Prop :=
  ∀ indentWidth maxWidth, ∀ line ∈ linesEach rows indentWidth maxWidth, depth ≤ line.depth

variable {upper lower : List Row} {depth : Nat}

/-- Deep rows under deep ones. -/
theorem Deep.append (one : Deep upper depth) (two : Deep lower depth) :
    Deep (upper ++ lower) depth := by
  intro indentWidth maxWidth
  rw [linesEach_append, List.forall_mem_append]
  exact ⟨one indentWidth maxWidth, two indentWidth maxWidth⟩

/-- A text at a depth. -/
theorem deep_line {own : Nat} (deep : depth ≤ own) (text : String) :
    Deep [.line own text] depth := by
  intro indentWidth maxWidth
  simpa [linesEach, lines] using deep

/-- Deep rows of items. -/
theorem deep_flatMap {α : Type} {items : List α} {rows : α → List Row}
    (each : ∀ item ∈ items, Deep (rows item) depth) : Deep (items.flatMap rows) depth := by
  intro indentWidth maxWidth line inside
  rw [linesEach, List.flatMap_assoc, List.mem_flatMap] at inside
  obtain ⟨item, among, own⟩ := inside
  exact each item among indentWidth maxWidth line own

/-- Every line of these rows is indented or does not begin with a word. -/
def Avoids (rows : List Row) (word : List Char) : Prop :=
  ∀ indentWidth maxWidth, ∀ line ∈ linesEach rows indentWidth maxWidth,
    1 ≤ line.depth ∨ ¬ word <+: line.text.toList

variable {word : List Char}

/-- Rows under others avoid what both avoid. -/
theorem Avoids.append (one : Avoids upper word) (two : Avoids lower word) :
    Avoids (upper ++ lower) word := by
  intro indentWidth maxWidth
  rw [linesEach_append, List.forall_mem_append]
  exact ⟨one indentWidth maxWidth, two indentWidth maxWidth⟩

/-- Indented rows avoid every word. -/
theorem Deep.avoids (deep : Deep upper 1) : Avoids upper word :=
  fun indentWidth maxWidth line inside => .inl (deep indentWidth maxWidth line inside)

/-- A text that does not begin with a word avoids it. -/
theorem avoids_line {text : String} (apart : ¬ word <+: text.toList) (own : Nat) :
    Avoids [.line own text] word := by
  intro indentWidth maxWidth
  simpa [linesEach, lines] using .inr apart

/-- Empty lines avoid every word. -/
theorem avoids_gap (some : word ≠ []) : Avoids [.gap] word := by
  intro indentWidth maxWidth
  simpa [linesEach, lines] using some

/-- Rows with an empty line between each two avoid what all of them avoid. -/
theorem avoids_intercalate_gap {outlines : List (List Row)} (some : word ≠ [])
    (each : ∀ rows ∈ outlines, Avoids rows word) : Avoids ([gap].intercalate outlines) word := by
  induction outlines with
  | nil => simp [Avoids, linesEach]
  | cons first others inductionHypothesis =>
    have one := each first List.mem_cons_self
    cases others with
    | nil => simpa using one
    | cons second others =>
      have more := inductionHypothesis fun rows inside => each rows (List.mem_cons_of_mem _ inside)
      rw [List.intercalate_cons_cons]
      exact (one.append (avoids_gap some)).append more

/-- A row stands among those of its outline and others, and so do its lines. -/
theorem mem_linesEach_intercalate {outlines : List (List Row)} {rows : List Row}
    (among : rows ∈ outlines) {own : Nat} {text : String} (inside : .line own text ∈ rows)
    (indentWidth maxWidth : Nat) :
    ⟨own, text⟩ ∈ linesEach ([gap].intercalate outlines) indentWidth maxWidth := by
  have shown : .line own text ∈ [gap].intercalate outlines := by
    induction outlines with
    | nil => cases among
    | cons first others inductionHypothesis =>
      rcases List.mem_cons.1 among with rfl | later
      · cases others with
        | nil => simpa using inside
        | cons second others => simp [List.intercalate_cons_cons, inside]
      · cases others with
        | nil => cases later
        | cons second others => simp [List.intercalate_cons_cons, inductionHypothesis later]
  exact List.mem_flatMap.2 ⟨_, shown, List.mem_singleton_self _⟩

/-- With a width to indent by, no line of rows that avoid a word begins with it. -/
theorem Avoids.not_prefix {rows : List Row} (avoids : Avoids rows word) {indentWidth : Nat}
    (wide : 1 ≤ indentWidth) (visible : ' ' ∉ word) (some : word ≠ []) (maxWidth : Nat) :
    ∀ line ∈ linesEach rows indentWidth maxWidth,
      ¬ word <+: (line.write indentWidth).toList := by
  intro line inside front
  by_cases deep : 1 ≤ line.depth
  · exact not_prefix_write wide deep visible some front
  · have flush : line.depth = 0 := by omega
    have apart := (avoids indentWidth maxWidth line inside).resolve_left deep
    rw [Line.write, flush] at front
    exact apart (by simpa using front)

end GraphQLCanon.Layout.Row

namespace GraphQLCanon.Executable

open GraphQLCanon.Layout

/-- A field stands at its depth, and its arguments behind it. -/
theorem Field.deep_row (field : Field) (depth : Nat) (ending : String) :
    Row.Deep [field.row depth ending] depth := by
  unfold Field.row
  split
  · exact Row.deep_line (Nat.le_refl _) _
  · intro indentWidth maxWidth line inside
    simp only [Row.linesEach, List.flatMap_singleton, Row.lines, ArgumentList.lines] at inside
    split at inside
    · rw [List.mem_singleton.1 inside]
      exact Nat.le_refl _
    · simp only [ArgumentList.wrapped, ArgumentList.spread, List.mem_cons, List.mem_append,
        List.mem_map, List.not_mem_nil, or_false] at inside
      rcases inside with rfl | ⟨argument, -, rfl⟩ | rfl
      · exact Nat.le_refl _
      · exact Nat.le_succ depth
      · exact Nat.le_refl _

/-- Selections stand at their depth or behind it when each of them does. -/
theorem deep_rowsEach {selections : List Selection} {depth own : Nat} (deep : depth ≤ own)
    (each : ∀ selection ∈ selections, Row.Deep (selection.rows own) own) :
    Row.Deep (rowsEach own selections) depth := by
  rw [rowsEach_eq_flatMap]
  refine Row.deep_flatMap fun selection inside indentWidth maxWidth line among => ?_
  exact Nat.le_trans deep (each selection inside indentWidth maxWidth line among)

/-- A selection stands at its depth, and those below it behind it. -/
theorem Selection.deep_rows (selection : Selection) (depth : Nat) :
    Row.Deep (selection.rows depth) depth := by
  induction selection using Selection.induct generalizing depth with
  | field head selections inductionHypothesis =>
    have below := deep_rowsEach (Nat.le_succ depth) fun selection inside =>
      inductionHypothesis selection inside (depth + 1)
    rw [Selection.rows]
    split
    · exact head.deep_row depth ""
    · exact (head.deep_row depth " \x7b").append (below.append (Row.deep_line (Nat.le_refl _) _))
  | spread name directives => exact Row.deep_line (Nat.le_refl _) _
  | inline typeCondition directives selections inductionHypothesis =>
    have below := deep_rowsEach (Nat.le_succ depth) fun selection inside =>
      inductionHypothesis selection inside (depth + 1)
    exact (Row.deep_line (Nat.le_refl _) _).append (below.append (Row.deep_line (Nat.le_refl _) _))

/-- The selections of a definition stand one level deeper, and a closing brace below them. -/
theorem avoids_selections (selections : List Selection) :
    Row.Avoids (rowsEach 1 selections ++ [.line 0 "\x7d"]) "schema".toList := by
  have deep := @deep_rowsEach selections 1 1 (Nat.le_refl 1) fun selection _ => selection.deep_rows 1
  exact deep.avoids.append (Row.avoids_line (by decide) 0)

/-- A definition that comes from a source begins with a keyword of an operation or a fragment,
and all below it is indented. -/
theorem Definition.avoids_rows {source : Grammar.Definition} {definition : Definition}
    (taken : Definition.ofGrammar source = .ok definition) :
    Row.Avoids (definition.canonical.rows 0) "schema".toList := by
  have operation (type : Grammar.OperationType) (rest : String) :
      ¬ "schema".toList <+: (type.keyword ++ rest).toList := by
    cases type <;> simp [Grammar.OperationType.keyword, List.cons_prefix_cons]
  cases source with
  | shorthand selections =>
    obtain rfl := Except.ok.inj taken
    exact (Row.avoids_line (operation .query _) 0).append (avoids_selections _)
  | operation definition =>
    obtain rfl := Except.ok.inj taken
    exact (Row.avoids_line (operation definition.operation _) 0).append (avoids_selections _)
  | fragment definition =>
    obtain rfl := Except.ok.inj taken
    have keyword : ¬ "schema".toList <+: ("fragment " ++ definition.name ++ " on " ++
        definition.typeCondition ++ " \x7b").toList := by
      simp [List.cons_prefix_cons]
    exact (Row.avoids_line keyword 0).append (avoids_selections _)
  | typeSystem _ | directive _ | extension _ => cases taken

end GraphQLCanon.Executable

namespace GraphQLCanon

open GraphQLCanon.Layout
open GraphQLCanon.Lexical
open GraphQLCanon.Text (OpensLine isSchemaChars_iff)

variable {text result : String} {options : Options}

/-- Canonical forms are taken for schemas by a line of their outline, or by one of a block
string. -/
theorem isSchema_write_iff {rows : List Row} (lead : Row.Lead rows 0 0)
    (indentWidth maxWidth : Nat) : isSchema (Row.write rows indentWidth maxWidth) = true ↔
      (∃ line ∈ Row.linesEach rows indentWidth maxWidth,
        "schema".toList <+: (line.write indentWidth).toList) ∨
      ∃ value, .blockString value ∈ (scan (Row.write rows indentWidth maxWidth).toList).tokens ∧
        OpensLine "schema".toList (BlockString.encode value.toList) := by
  rw [isSchema, isSchemaChars_iff]
  exact opensLine_join_iff (lead indentWidth maxWidth false) (by decide) (by simp)

/-- The block strings of a canonical query are block strings of its source. -/
theorem blockString_of_formatQuery (formatted : formatQuery text options = .ok result)
    {value : String} (inside : .blockString value ∈ (scan result.toList).tokens) :
    .blockString value ∈ (scan text.toList).tokens := by
  obtain ⟨definitions, read, executable, spells, -⟩ := arranged_of_formatQuery formatted
  obtain ⟨written, leading, -, -, permuted⟩ := Grammar.Document.ofText_tokens_perm read
  have arranged := Grammar.arrangedTokens_perm executable
  rw [spells.scan.1] at inside
  have among := arranged.subset (List.mem_append_left _ inside)
  rw [Grammar.gainedTokens_eq_replicate, List.mem_append, List.mem_replicate] at among
  have shown := among.resolve_right (by simp)
  have source := permuted.symm.subset (List.mem_append_left _ shown)
  simpa using source

/-- Under a width to indent by, the canonical form of a query is taken for a schema exactly when
the word begins a line of one of its block strings, which are block strings of the source. Where
it is not, it is formatted as a query again and is its own canonical form. Where it is, it is
refused for what it contains. -/
theorem isSchema_formatQuery (formatted : formatQuery text options = .ok result)
    (wide : 1 ≤ options.indentWidth) :
    (isSchema result = true ↔ ∃ value, .blockString value ∈ (scan result.toList).tokens ∧
      OpensLine "schema".toList (BlockString.encode value.toList)) ∧
    (∀ value, .blockString value ∈ (scan result.toList).tokens →
      .blockString value ∈ (scan text.toList).tokens) ∧
    (isSchema result = false → formatText result options = .ok result) ∧
    (isSchema result = true →
      ∃ construct, formatText result options = .error (.unprintable (.unsupported construct))) := by
  refine ⟨?_, fun value => blockString_of_formatQuery formatted, ?_, ?_⟩
  · obtain ⟨document, read, rfl⟩ := rows_of_formatQuery formatted
    have avoids : Row.Avoids document.canonical.rows "schema".toList := by
      refine Row.avoids_intercalate_gap (by decide) ?_
      rw [Executable.Document.canonical, List.map_map, List.forall_mem_map]
      intro definition inside
      obtain ⟨source, taken, -, -⟩ := (sources_of_readExecutable read).2 definition inside
      exact Executable.Definition.avoids_rows taken
    have apart := avoids.not_prefix wide (by decide) (by decide) options.maxWidth
    rw [isSchema_write_iff (lead_of_readExecutable read)]
    refine or_iff_right ?_
    rintro ⟨line, inside, front⟩
    exact apart line inside front
  · intro query
    rw [formatText_eq, query, if_neg (by decide)]
    exact formatQuery_result formatted
  · intro schema
    rw [formatText_eq, if_pos schema]
    exact formatSchema_of_formatQuery formatted

set_option maxRecDepth 4000 in
/-- A block string without such a line, and a field with the name of the word. -/
theorem isSchema_formatQuery_indented :
    formatQuery "\x7bschema\na(x: \"\"\"\n b\n  schema\n\"\"\") \x7d" Options.standard =
        .ok "query \x7b\n  a(x: \"\"\"\nb\n schema\n\"\"\")\n  schema\n\x7d" ∧
      1 ≤ Options.standard.indentWidth ∧
      (isSchema "query \x7b\n  a(x: \"\"\"\nb\n schema\n\"\"\")\n  schema\n\x7d" = true ↔
        ∃ value, .blockString value ∈ (scan
            "query \x7b\n  a(x: \"\"\"\nb\n schema\n\"\"\")\n  schema\n\x7d".toList).tokens ∧
          OpensLine "schema".toList (BlockString.encode value.toList)) ∧
      (∀ value, .blockString value ∈ (scan
          "query \x7b\n  a(x: \"\"\"\nb\n schema\n\"\"\")\n  schema\n\x7d".toList).tokens →
        .blockString value ∈
          (scan "\x7bschema\na(x: \"\"\"\n b\n  schema\n\"\"\") \x7d".toList).tokens) ∧
      (isSchema "query \x7b\n  a(x: \"\"\"\nb\n schema\n\"\"\")\n  schema\n\x7d" = false →
        formatText "query \x7b\n  a(x: \"\"\"\nb\n schema\n\"\"\")\n  schema\n\x7d"
          Options.standard =
            .ok "query \x7b\n  a(x: \"\"\"\nb\n schema\n\"\"\")\n  schema\n\x7d") ∧
      (isSchema "query \x7b\n  a(x: \"\"\"\nb\n schema\n\"\"\")\n  schema\n\x7d" = true →
        ∃ construct,
          formatText "query \x7b\n  a(x: \"\"\"\nb\n schema\n\"\"\")\n  schema\n\x7d"
            Options.standard = .error (.unprintable (.unsupported construct))) := by
  have formatted :
      formatQuery "\x7bschema\na(x: \"\"\"\n b\n  schema\n\"\"\") \x7d" Options.standard =
        .ok "query \x7b\n  a(x: \"\"\"\nb\n schema\n\"\"\")\n  schema\n\x7d" := by
    cbv
  exact ⟨formatted, by decide, isSchema_formatQuery formatted (by decide)⟩

set_option maxRecDepth 4000 in
/-- The common indentation of a block string is taken away, and a line of it then begins with the
word: a query in canonical form is taken for a schema and refused. -/
theorem isSchema_formatQuery_unindented :
    formatQuery "query \x7b a(x: \"\"\"\n  b\n  schema\n\"\"\") \x7d" Options.standard =
        .ok "query \x7b\n  a(x: \"\"\"\nb\nschema\n\"\"\")\n\x7d" ∧
      1 ≤ Options.standard.indentWidth ∧
      isSchema "query \x7b\n  a(x: \"\"\"\nb\nschema\n\"\"\")\n\x7d" = true ∧
      formatText "query \x7b\n  a(x: \"\"\"\nb\nschema\n\"\"\")\n\x7d" Options.standard =
        .error (.unprintable (.unsupported (.inSchemaDocument "operation definition"))) := by
  refine ⟨?_, by decide, ?_, ?_⟩
  · cbv
  · cbv
  · cbv

/-- The canonical form of a schema document with a schema block in it is taken for a schema,
whatever else is in the document, and is its own canonical form. -/
theorem isSchema_formatSchema (formatted : formatSchema text options = .ok result)
    {definitions : Grammar.Document} (read : Grammar.Document.ofText text = .ok definitions)
    {description : Option String} {directives : List Grammar.Directive}
    {roots : List (Grammar.OperationType × String)}
    (inside : .typeSystem (.schema description directives roots) ∈ definitions) :
    isSchema result = true ∧ formatText result options = .ok result := by
  have schema : isSchema result = true := by
    obtain ⟨document, own, rfl⟩ := rows_of_formatSchema formatted
    obtain ⟨sources, readSources, rfl⟩ := readTypeSystem_eq_ok.1 own
    obtain rfl := Except.ok.inj (read.symm.trans readSources)
    obtain ⟨source, among, same⟩ := List.mem_map.1 inside
    obtain rfl : source = .schema description directives roots := by simpa using same
    -- The keyword stands at depth zero under the description, so it begins its line.
    have outlined : (TypeSystem.Definition.ofTypeSystem
        (.schema description directives roots)).canonical.rows 0 ∈
          (TypeSystem.Document.canonical ⟨sources.map .ofTypeSystem⟩).definitions.map
            fun definition => definition.rows 0 := by
      rw [TypeSystem.Document.canonical, List.map_map, List.map_map]
      exact List.mem_map_of_mem among
    have line : .line 0 ("schema" ++ " \x7b") ∈ (TypeSystem.Definition.ofTypeSystem
        (.schema description directives roots)).canonical.rows 0 := by
      simp [TypeSystem.Definition.ofTypeSystem, TypeSystem.Definition.canonical,
        TypeSystem.Definition.rows, TypeSystem.Schema.rows]
    rw [isSchema_write_iff (lead_of_readTypeSystem own)]
    exact .inl ⟨_, Row.mem_linesEach_intercalate outlined line _ _, by
      simp [Line.write, List.cons_prefix_cons]⟩
  refine ⟨schema, ?_⟩
  rw [formatText_eq, if_pos schema]
  exact formatSchema_result formatted

/-- A schema block behind another definition, on the line of its description. -/
theorem isSchema_formatSchema_described :
    formatSchema "type A \x7b a: Int \x7d  \"root\" schema \x7b query: A \x7d" Options.standard =
        .ok "type A \x7b\n  a: Int\n\x7d\n\n\"root\"\nschema \x7b\n  query: A\n\x7d" ∧
      Grammar.Document.ofText "type A \x7b a: Int \x7d  \"root\" schema \x7b query: A \x7d" =
        .ok [.typeSystem (.object none "A" [] [] [⟨none, "a", [], .named "Int", []⟩]),
          .typeSystem (.schema (some "root") [] [(.query, "A")])] ∧
      isSchema "type A \x7b\n  a: Int\n\x7d\n\n\"root\"\nschema \x7b\n  query: A\n\x7d" = true ∧
      formatText "type A \x7b\n  a: Int\n\x7d\n\n\"root\"\nschema \x7b\n  query: A\n\x7d"
        Options.standard =
          .ok "type A \x7b\n  a: Int\n\x7d\n\n\"root\"\nschema \x7b\n  query: A\n\x7d" := by
  have formatted :
      formatSchema "type A \x7b a: Int \x7d  \"root\" schema \x7b query: A \x7d"
        Options.standard =
          .ok "type A \x7b\n  a: Int\n\x7d\n\n\"root\"\nschema \x7b\n  query: A\n\x7d" := by
    cbv
  have read :
      Grammar.Document.ofText "type A \x7b a: Int \x7d  \"root\" schema \x7b query: A \x7d" =
        .ok [.typeSystem (.object none "A" [] [] [⟨none, "a", [], .named "Int", []⟩]),
          .typeSystem (.schema (some "root") [] [(.query, "A")])] := by
    cbv
  exact ⟨formatted, read, isSchema_formatSchema formatted read
    (List.mem_cons_of_mem _ (List.mem_singleton_self _))⟩

end GraphQLCanon
