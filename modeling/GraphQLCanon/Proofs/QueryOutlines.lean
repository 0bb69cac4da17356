import Mathlib.Data.List.Perm.Basic
import GraphQLCanon.Proofs.Outlines
import GraphQLCanon.Proofs.WrittenQueries

/-!
# Outlines of queries

The outline of every part of a query document at a depth. A selection set stands in braces
one level deeper than what it belongs to, so the depth of a row is the number of braces
around it. The pieces of definitions follow their outlines, and the argument lists of the
outline of a canonical form are those of the document: each field with arguments once, with
its own depth and header, and its arguments in order of their names.
-/

namespace GraphQLCanon.Executable

open GraphQLCanon.Layout
open GraphQLCanon.Lexical
open GraphQLCanon.Grammar (Value AllLegible allLegible_cons allLegible_append allLegible_flatMap
  headerTokens selectionTokens)

/-- The row of a field, with what ends its last line. -/
def Field.row (field : Field) (depth : Nat) (ending : String) : Row :=
  if field.arguments.isEmpty then .line depth (field.header ++ ending)
  else .listed ⟨depth, field.header, field.arguments.map Argument.write⟩ ending

mutual

/-- The outline of a selection at a depth. -/
def Selection.rows (depth : Nat) : Selection → List Row
  | .field head selections =>
    if selections.isEmpty then [head.row depth ""]
    else head.row depth " \x7b" :: (rowsEach (depth + 1) selections ++ [.line depth "\x7d"])
  | .spread name _ => [.line depth ("..." ++ name)]
  | .inline typeCondition _ selections =>
    .line depth (inlineHeader typeCondition ++ " \x7b") ::
      (rowsEach (depth + 1) selections ++ [.line depth "\x7d"])

/-- The outlines of selections, one under the other. -/
def rowsEach (depth : Nat) : List Selection → List Row
  | [] => []
  | selection :: selections => selection.rows depth ++ rowsEach depth selections

end

/-- The name of an operation, behind a space, if it is shown. -/
def Operation.nameText (operation : Operation) : String :=
  match operation.shownName? with
  | some name => " " ++ name
  | none => ""

/-- The variables of an operation in parentheses, if there are any. -/
def Operation.variablesText (operation : Operation) : String :=
  if operation.variableDefinitions.isEmpty then ""
  else (if operation.shownName?.isNone then " " else "") ++
    ("(" ++ ", ".intercalate (operation.variableDefinitions.map Variable.write) ++ ")")

/-- The outline of an operation. -/
def Operation.rows (operation : Operation) (depth : Nat) : List Row :=
  .line depth (operation.kind ++ (operation.nameText ++ (operation.variablesText ++ " \x7b"))) ::
    (rowsEach (depth + 1) operation.selections ++ [.line depth "\x7d"])

/-- The outline of a fragment. -/
def Fragment.rows (fragment : Fragment) (depth : Nat) : List Row :=
  .line depth ("fragment " ++ fragment.name ++ " on " ++ fragment.typeCondition ++ " \x7b") ::
    (rowsEach (depth + 1) fragment.selections ++ [.line depth "\x7d"])

/-- The outline of a definition. -/
def Definition.rows : Definition → Nat → List Row
  | operation definition => definition.rows
  | fragment definition => definition.rows

/-- The outline of a document: its definitions with an empty line between each two. -/
def Document.rows (document : Document) : List Row :=
  [Row.gap].intercalate (document.definitions.map fun definition => definition.rows 0)

section Following

/-- There is no line feed in the name of a field behind its alias. -/
theorem unbroken_header {field : Field}
    (legible : AllLegible (headerTokens field.aliasName field.name)) :
    '\n' ∉ field.header.toList := by
  unfold Field.header
  cases aliased : field.aliasName with
  | none =>
    simp only [aliased, headerTokens, allLegible_cons] at legible
    exact unbroken_name legible.1
  | some aliasName =>
    simp only [aliased, headerTokens, allLegible_cons] at legible
    have shown := isEmpty_of_legible legible.1
    have ownAlias := unbroken_name legible.1
    have ownName := unbroken_name legible.2.2.1
    simp [shown, ownAlias, ownName]

/-- A field up to its selections is a row. -/
theorem Field.heads {field : Field} (unbroken : '\n' ∉ field.header.toList) :
    field.piece.Heads fun depth ending => [field.row depth ending] := by
  unfold Field.piece Field.row
  cases field.arguments with
  | nil =>
    have bare := Piece.heads_indented field.header
    rw [← Piece.append_empty (Piece.indented field.header)] at bare
    exact bare
  | cons first others => exact Piece.heads_arguments unbroken _

/-- Selections follow their outlines when each of them does. -/
theorem follows_pieceEach {selections : List Selection}
    (each : ∀ selection ∈ selections, selection.piece.Follows (selection.rows ·)) :
    (pieceEach selections).Follows (rowsEach · selections) := by
  induction selections with
  | nil => exact Piece.follows_empty
  | cons first others inductionHypothesis =>
    have one := each first List.mem_cons_self
    have more := inductionHypothesis fun selection inside =>
      each selection (List.mem_cons_of_mem _ inside)
    exact one.append more

/-- Selections of a source follow their outlines when each of them does. -/
theorem follows_selectionsOf {selections : List Grammar.Selection}
    (each : ∀ selection ∈ selections,
      (Selection.ofGrammar selection).piece.Follows ((Selection.ofGrammar selection).rows ·)) :
    (pieceEach (selectionsOf selections)).Follows (rowsEach · (selectionsOf selections)) := by
  refine follows_pieceEach ?_
  rw [selectionsOf_eq_map, List.forall_mem_map]
  exact each

/-- A selection follows its outline when it fits and its tokens are legible. -/
theorem follows_selection {allowance : Nat} {selection : Grammar.Selection}
    (fits : selection.Fits allowance) (legible : AllLegible selection.tokens) :
    (Selection.ofGrammar selection).piece.Follows ((Selection.ofGrammar selection).rows ·) := by
  induction fits with
  | leaf aliasName name arguments directives argumentsFit directivesFit =>
    rw [Grammar.Selection.tokens_field] at legible
    simp only [allLegible_append] at legible
    have unbroken := @unbroken_header ⟨name, aliasName, argumentsOf arguments,
      Grammar.directiveNames directives⟩ legible.1
    exact (Field.heads unbroken).line
  | branch aliasName name arguments directives selections argumentsFit directivesFit nonempty _
    inductionHypothesis =>
    rw [Grammar.Selection.tokens_field, selectionTokens_eq nonempty] at legible
    simp only [allLegible_append, allLegible_cons, allLegible_flatMap] at legible
    obtain ⟨header, -, -, -, entries, -⟩ := legible
    have unbroken := @unbroken_header ⟨name, aliasName, argumentsOf arguments,
      Grammar.directiveNames directives⟩ header
    have below := follows_selectionsOf fun selection inside =>
      inductionHypothesis selection inside (entries selection inside)
    have some? : (selectionsOf selections).isEmpty = false := by
      simpa [selectionsOf_eq_map] using nonempty
    simp only [Selection.ofGrammar, Selection.piece, Selection.rows, some?]
    exact (Field.heads unbroken).braces below
  | spread name directives free directivesFit =>
    exact Piece.follows_line ("..." ++ name)
  | inline typeCondition directives selections directivesFit nonempty _ inductionHypothesis =>
    rw [Grammar.Selection.tokens_inline, selectionTokens_eq nonempty] at legible
    simp only [allLegible_append, allLegible_cons, allLegible_flatMap] at legible
    obtain ⟨-, -, -, -, entries, -⟩ := legible
    have below := follows_selectionsOf fun selection inside =>
      inductionHypothesis selection inside (entries selection inside)
    have some? : (selectionsOf selections).isEmpty = false := by
      simpa [selectionsOf_eq_map] using nonempty
    simp only [Selection.ofGrammar, Selection.piece, Selection.rows, some?]
    exact (Piece.heads_indented (inlineHeader typeCondition)).braces below

/-- The selections of a definition follow their outlines in braces. -/
theorem Heads.selections {piece : Piece} {rows : Nat → String → List Row} (heads : piece.Heads rows)
    {allowance : Nat} {selections : List Grammar.Selection}
    (fit : Grammar.SelectionsFit allowance selections)
    (legible : AllLegible (selectionTokens selections)) :
    (piece ++ selectionsPiece (selectionsOf selections)).Follows fun depth =>
      rows depth " \x7b" ++ (rowsEach (depth + 1) (selectionsOf selections) ++
        [.line depth "\x7d"]) := by
  obtain ⟨nonempty, inner, rfl, fits⟩ := fit
  rw [selectionTokens_eq nonempty] at legible
  simp only [allLegible_append, allLegible_cons, allLegible_flatMap] at legible
  have below := follows_selectionsOf fun selection inside =>
    follows_selection (fits selection inside) (legible.2.1 selection inside)
  have some? : (selectionsOf selections).isEmpty = false := by
    simpa [selectionsOf_eq_map] using nonempty
  simp only [selectionsPiece, some?]
  exact heads.braces below

/-- An operation follows its outline. -/
theorem follows_operation {definition : Grammar.OperationDefinition} (fits : definition.Fits)
    (legible : AllLegible definition.tokens) :
    (Operation.ofGrammar definition).piece.Follows (Operation.ofGrammar definition).rows := by
  simp only [Grammar.OperationDefinition.tokens, allLegible_append, allLegible_cons] at legible
  obtain ⟨-, -, -, -, -, selections⟩ := legible
  have name_eq : (Operation.ofGrammar definition).namePiece =
      Piece.text (Operation.ofGrammar definition).nameText := by
    unfold Operation.namePiece Operation.nameText
    cases (Operation.ofGrammar definition).shownName? <;> rfl
  have variables_eq : (Operation.ofGrammar definition).variablesPiece =
      Piece.text (Operation.ofGrammar definition).variablesText := by
    unfold Operation.variablesPiece Operation.variablesText
    split
    · rfl
    · split <;> rfl
  have heads := ((Piece.heads_indented (Operation.ofGrammar definition).kind).append_text
    (Operation.ofGrammar definition).nameText).append_text
      (Operation.ofGrammar definition).variablesText
  have whole := Heads.selections heads fits.selections selections
  rw [Operation.piece, name_eq, variables_eq, ← Piece.append_assoc, ← Piece.append_assoc]
  exact whole

/-- A fragment follows its outline. -/
theorem follows_fragment {definition : Grammar.FragmentDefinition} (fits : definition.Fits)
    (legible : AllLegible definition.tokens) :
    (Fragment.ofGrammar definition).piece.Follows (Fragment.ofGrammar definition).rows := by
  simp only [Grammar.FragmentDefinition.tokens, allLegible_append, allLegible_cons] at legible
  obtain ⟨-, -, -, -, -, -, selections⟩ := legible
  exact Heads.selections (Piece.heads_indented _) fits.selections selections

/-- The canonical form of a definition follows its outline. -/
theorem Definition.follows_canonical {source : Grammar.Definition} {definition : Definition}
    (taken : Definition.ofGrammar source = .ok definition) (fits : source.Fits)
    (legible : AllLegible source.tokens) :
    definition.canonical.piece.Follows definition.canonical.rows := by
  have arranged := Definition.ofGrammar_arranged source
  have arrangedFits := Grammar.Definition.fits_arranged fits
  have arrangedLegible := Grammar.Definition.legible_arranged legible
  rw [taken] at arranged
  cases source with
  | shorthand selections =>
    have canonical_eq := Except.ok.inj arranged
    rw [← canonical_eq]
    exact follows_operation arrangedFits arrangedLegible
  | operation operation =>
    have canonical_eq := Except.ok.inj arranged
    rw [← canonical_eq]
    exact follows_operation arrangedFits arrangedLegible
  | fragment fragment =>
    have canonical_eq := Except.ok.inj arranged
    rw [← canonical_eq]
    exact follows_fragment arrangedFits arrangedLegible
  | typeSystem _ | directive _ | extension _ => cases taken


end Following

section Lists

/-- The argument list of a field at a depth, if it has arguments: they are in order of their
names. -/
def Field.argumentLists (field : Field) (depth : Nat) : List ArgumentList :=
  if field.arguments.isEmpty then []
  else [⟨depth, field.header, (Text.sortOn Argument.name field.arguments).map Argument.write⟩]

mutual

/-- The argument lists of a selection at a depth and of all below it. -/
def Selection.argumentLists (depth : Nat) : Selection → List ArgumentList
  | .field head selections => head.argumentLists depth ++ argumentListsEach (depth + 1) selections
  | .spread _ _ => []
  | .inline _ _ selections => argumentListsEach (depth + 1) selections

/-- The argument lists of selections at a depth. -/
def argumentListsEach (depth : Nat) : List Selection → List ArgumentList
  | [] => []
  | selection :: selections => selection.argumentLists depth ++ argumentListsEach depth selections

end

/-- The argument lists of a definition. -/
def Definition.argumentLists : Definition → List ArgumentList
  | operation definition => argumentListsEach 1 definition.selections
  | fragment definition => argumentListsEach 1 definition.selections

/-- The argument lists of a document: one for every field with arguments. -/
def Document.argumentLists (document : Document) : List ArgumentList :=
  document.definitions.flatMap Definition.argumentLists

/-- Outlines of selections stand in order. -/
theorem rowsEach_eq_flatMap (depth : Nat) (selections : List Selection) :
    rowsEach depth selections = selections.flatMap (Selection.rows depth) := by
  induction selections with
  | nil => rfl
  | cons first others inductionHypothesis =>
    rw [rowsEach, inductionHypothesis, List.flatMap_cons]

/-- Argument lists of selections stand in order. -/
theorem argumentListsEach_eq_flatMap (depth : Nat) (selections : List Selection) :
    argumentListsEach depth selections = selections.flatMap (Selection.argumentLists depth) := by
  induction selections with
  | nil => rfl
  | cons first others inductionHypothesis =>
    rw [argumentListsEach, inductionHypothesis, List.flatMap_cons]

/-- The row of a field in canonical form shows its argument list, if it has one. -/
theorem Field.argumentLists_row (field : Field) (depth : Nat) (ending : String) :
    Row.argumentLists [field.canonical.row depth ending] = field.argumentLists depth := by
  have same : field.canonical.arguments.isEmpty = field.arguments.isEmpty := by
    have perm := (Text.sortOn_perm Argument.name field.arguments).length_eq
    rw [Bool.eq_iff_iff, List.isEmpty_iff_length_eq_zero, List.isEmpty_iff_length_eq_zero,
      ← perm]
    rfl
  unfold Field.row Field.argumentLists
  rw [same]
  split <;> rfl

/-- The outlines of selections in canonical form show the argument lists of all of them when
each of them does. -/
theorem argumentLists_rowsEach {selections : List Selection} {depth : Nat}
    (each : ∀ selection ∈ selections,
      (Row.argumentLists (selection.canonical.rows depth)).Perm (selection.argumentLists depth)) :
    (Row.argumentLists (rowsEach depth (canonicalSelections selections))).Perm
      (argumentListsEach depth selections) := by
  have sorted : (canonicalSelections selections).Perm (selections.map Selection.canonical) := by
    rw [← canonicalEach_eq_map]
    exact List.mergeSort_perm _ _
  rw [rowsEach_eq_flatMap, argumentListsEach_eq_flatMap, Row.argumentLists,
    List.filterMap_flatMap]
  refine (sorted.flatMap_right _).trans ?_
  rw [List.flatMap_map]
  exact List.Perm.flatMap_left _ each

/-- The outline of a selection in canonical form shows the argument lists of the selection. -/
theorem Selection.argumentLists_canonical (selection : Selection) (depth : Nat) :
    (Row.argumentLists (selection.canonical.rows depth)).Perm (selection.argumentLists depth) := by
  induction selection using Selection.induct generalizing depth with
  | field head selections inductionHypothesis =>
    have below := argumentLists_rowsEach fun selection inside =>
      inductionHypothesis selection inside (depth + 1)
    have own := head.argumentLists_row depth
    rw [Selection.canonical, Selection.rows, Selection.argumentLists]
    change (Row.argumentLists (if (canonicalSelections selections).isEmpty then _ else _)).Perm _
    rw [isEmpty_canonicalSelections]
    split
    · rename_i none?
      rw [List.isEmpty_iff.1 none?, own, argumentListsEach, List.append_nil]
    · rw [← List.singleton_append, Row.argumentLists_append, Row.argumentLists_append, own]
      refine List.Perm.append_left _ ?_
      rw [Row.argumentLists_line, List.append_nil]
      exact below
  | spread name directives => exact .refl _
  | inline typeCondition directives selections inductionHypothesis =>
    have below := argumentLists_rowsEach fun selection inside =>
      inductionHypothesis selection inside (depth + 1)
    rw [Selection.canonical, Selection.rows, Selection.argumentLists, ← List.singleton_append,
      Row.argumentLists_append, Row.argumentLists_append, Row.argumentLists_line,
      Row.argumentLists_line, List.append_nil]
    exact below

/-- The outline of a definition in canonical form shows the argument lists of the
definition. -/
theorem Definition.argumentLists_canonical (definition : Definition) :
    (Row.argumentLists (definition.canonical.rows 0)).Perm definition.argumentLists := by
  cases definition with
  | operation definition | fragment definition =>
    have below := @argumentLists_rowsEach definition.selections 1
      fun selection _ => selection.argumentLists_canonical 1
    simp only [Definition.canonical, Definition.rows, Operation.rows, Fragment.rows]
    rw [← List.singleton_append, Row.argumentLists_append, Row.argumentLists_append,
      Row.argumentLists_line, Row.argumentLists_line, List.append_nil]
    exact below

/-- The outline of a document in canonical form shows the argument lists of the document. -/
theorem Document.argumentLists_canonical (document : Document) :
    (Row.argumentLists document.canonical.rows).Perm document.argumentLists := by
  rw [Document.rows, Row.argumentLists_intercalate_gap, Document.canonical, List.flatMap_map,
    List.flatMap_map]
  exact List.Perm.flatMap_left _ fun definition _ => definition.argumentLists_canonical

end Lists

end GraphQLCanon.Executable
