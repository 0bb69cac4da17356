import GraphQLCanon.Executable.Printing
import GraphQLCanon.Proofs.Pieces
import GraphQLCanon.Proofs.SelectionOrder

/-!
# What is written of a query document

For every part of a query document, the first directive that stops the printing,
in the order in which the printers come to it, and the piece that is written where
there is none. The printers do exactly that.
-/

namespace GraphQLCanon.Executable

open GraphQLCanon.Layout
open GraphQLCanon.Layout.Printing

/-- The piece of a field up to its selections. -/
def Field.piece (field : Field) : Piece :=
  Piece.indented field.header ++
    if field.arguments.isEmpty then Piece.text ""
    else Piece.arguments (field.arguments.map Argument.write)

/-- The first line of an inline fragment, up to its selections. -/
def inlineHeader : Option String → String
  | some type => "... on " ++ type
  | none => "..."

/-- What carries the directives of an inline fragment. -/
def inlineOwner : Option String → DirectiveOwner
  | some type => .typedInlineFragment type
  | none => .inlineFragment

mutual

/-- The piece of a selection. -/
def Selection.piece : Selection → Piece
  | .field head selections =>
    head.piece ++
      if selections.isEmpty then Piece.text "\n" else Piece.braces (pieceEach selections)
  | .spread name _ => Piece.indented ("..." ++ name ++ "\n")
  | .inline typeCondition _ selections =>
    Piece.indented (inlineHeader typeCondition) ++
      if selections.isEmpty then Piece.text "" else Piece.braces (pieceEach selections)

/-- The pieces of selections, one behind the other. -/
def pieceEach : List Selection → Piece
  | [] => Piece.text ""
  | selection :: selections => selection.piece ++ pieceEach selections

end

mutual

/-- The first directive on a selection or below it. -/
def Selection.offence? : Selection → Option Unsupported
  | .field head selections =>
    (directiveOffence? head.directives (.selectedField head.name)).or (offenceEach? selections)
  | .spread name directives => directiveOffence? directives (.spread name)
  | .inline typeCondition directives selections =>
    (directiveOffence? directives (inlineOwner typeCondition)).or (offenceEach? selections)

/-- The first directive among selections. -/
def offenceEach? : List Selection → Option Unsupported
  | [] => none
  | selection :: selections => selection.offence?.or (offenceEach? selections)

end

/-- Pieces of selections are put together in order. -/
theorem pieceEach_eq_concat (selections : List Selection) :
    pieceEach selections = Piece.concat selections Selection.piece := by
  induction selections with
  | nil => rfl
  | cons first others inductionHypothesis => rw [pieceEach, inductionHypothesis, Piece.concat]

/-- Selections stop where the first of them does. -/
theorem offenceEach?_eq_firstOffence? (selections : List Selection) :
    offenceEach? selections = firstOffence? Selection.offence? selections := by
  induction selections with
  | nil => rfl
  | cons first others inductionHypothesis =>
    rw [offenceEach?, inductionHypothesis, firstOffence?]

/-- Selections are printed one by one. -/
theorem printEach_eq_each (selections : List Selection) :
    printEach selections = each selections Selection.print := by
  induction selections with
  | nil => rfl
  | cons first others inductionHypothesis => rw [printEach, inductionHypothesis, each]

/-- Selections in braces answer when each of them does. Without selections nothing is
met and the other piece is written. -/
theorem answers_braces {selections : List Selection} {otherwise : Printing Unit} {piece : Piece}
    (answers : ∀ selection ∈ selections, selection.print.Answers selection.offence? selection.piece)
    (writes : otherwise.Writes piece) :
    Answers (if selections.isEmpty then otherwise else braces (printEach selections))
      (offenceEach? selections)
      (if selections.isEmpty then piece else Piece.braces (pieceEach selections)) := by
  cases selections with
  | nil => exact writes
  | cons first others =>
    rw [printEach_eq_each, offenceEach?_eq_firstOffence?, pieceEach_eq_concat]
    exact (answers_each answers).block " \x7b\n" "\x7d\n"

/-- A field up to its selections stops at its directives only. -/
theorem Field.answers (field : Field) :
    field.print.Answers (directiveOffence? field.directives (.selectedField field.name))
      field.piece := by
  have arguments : Writes (if field.arguments.isEmpty then pure ()
      else Printing.pushArguments (field.arguments.map Argument.write))
      (if field.arguments.isEmpty then Piece.text ""
        else Piece.arguments (field.arguments.map Argument.write)) := by
    split
    · exact writes_pure
    · exact writes_pushArguments _
  exact ((writes_pushIndented field.header).bind arguments).guarded _ _

/-- An inline fragment up to its selections stops at its directives only. -/
theorem answers_printInlineHeader (typeCondition : Option String) (directives : List String) :
    (printInlineHeader typeCondition directives).Answers
      (directiveOffence? directives (inlineOwner typeCondition))
      (Piece.indented (inlineHeader typeCondition)) := by
  cases typeCondition with
  | none => exact (writes_pushIndented "...").guarded directives .inlineFragment
  | some type =>
    exact (writes_pushIndented ("... on " ++ type)).guarded directives (.typedInlineFragment type)

/-- A selection stops at the first directive on it or below it, and is written as its
piece. -/
theorem Selection.answers (selection : Selection) :
    selection.print.Answers selection.offence? selection.piece := by
  induction selection using Selection.induct with
  | field head selections inductionHypothesis =>
    have below := answers_braces inductionHypothesis (writes_push "\n")
    rw [Selection.print, Selection.offence?, Selection.piece]
    exact head.answers.bind below
  | spread name directives =>
    rw [Selection.print, Selection.offence?, Selection.piece]
    exact (writes_pushIndented ("..." ++ name ++ "\n")).guarded directives (.spread name)
  | inline typeCondition directives selections inductionHypothesis =>
    have below := answers_braces inductionHypothesis writes_pure
    rw [Selection.print, Selection.offence?, Selection.piece]
    exact (answers_printInlineHeader typeCondition directives).bind below

/-- The piece of the selections of a definition. -/
def selectionsPiece (selections : List Selection) : Piece :=
  if selections.isEmpty then Piece.text "" else Piece.braces (pieceEach selections)

/-- The selections of a definition stop at the first directive in them. -/
theorem answers_printSelections (selections : List Selection) :
    (printSelections selections).Answers (offenceEach? selections) (selectionsPiece selections) :=
  answers_braces (fun selection _ => selection.answers) writes_pure

/-- The piece of the variables of an operation. -/
def Operation.variablesPiece (operation : Operation) : Piece :=
  if operation.variableDefinitions.isEmpty then Piece.text ""
  else (if operation.shownName?.isNone then Piece.text " " else Piece.text "") ++
    Piece.text ("(" ++ ", ".intercalate (operation.variableDefinitions.map Variable.write) ++ ")")

/-- The first directive on a variable. -/
def variableOffence? (variableDefinition : Variable) : Option Unsupported :=
  directiveOffence? variableDefinition.directives (.variableDefinition variableDefinition.name)

/-- Variables stop at the first directive on one of them. -/
theorem Operation.answers_printVariables (operation : Operation) :
    operation.printVariables.Answers
      (firstOffence? variableOffence? operation.variableDefinitions)
      operation.variablesPiece := by
  unfold Operation.printVariables Operation.variablesPiece
  cases listed : operation.variableDefinitions with
  | nil => exact writes_pure
  | cons first others =>
    rw [← listed]
    have some? : operation.variableDefinitions.isEmpty = false := by simp [listed]
    have checked : (rejectVariableDirectives operation.variableDefinitions).Answers
        (firstOffence? variableOffence? operation.variableDefinitions) (Piece.text "") :=
      answers_checks operation.variableDefinitions Variable.directives _
    have written := checked.before
      (writes_push
        ("(" ++ ", ".intercalate (operation.variableDefinitions.map Variable.write) ++ ")"))
    rw [Piece.empty_append] at written
    simp only [some?, Bool.false_eq_true, if_false]
    cases operation.shownName? with
    | none => exact written.behind (writes_push " ")
    | some name =>
      rw [if_neg (by simp), if_neg (by simp), Piece.empty_append]
      exact written

/-- The name of an operation behind its keyword. -/
def Operation.namePiece (operation : Operation) : Piece :=
  match operation.shownName? with
  | some name => Piece.text (" " ++ name)
  | none => Piece.text ""

/-- The piece of an operation. -/
def Operation.piece (operation : Operation) : Piece :=
  Piece.indented operation.kind ++ (operation.namePiece ++
    (operation.variablesPiece ++ selectionsPiece operation.selections))

/-- The first directive on an operation or in it: its own, then those of its variables,
then those of its selections. -/
def Operation.offence? (operation : Operation) : Option Unsupported :=
  (directiveOffence? operation.directives (.operation operation.kind operation.name)).or
    ((firstOffence? variableOffence? operation.variableDefinitions).or
      (offenceEach? operation.selections))

/-- An operation stops at the first directive on it or in it, and is written as its
piece. -/
theorem Operation.answers (operation : Operation) :
    operation.print.Answers operation.offence? operation.piece := by
  have behind := operation.answers_printVariables.bind
    (answers_printSelections operation.selections)
  have named : Answers (match operation.shownName? with
      | some name => do
        push (" " ++ name)
        operation.printVariables
        printSelections operation.selections
      | none => do
        operation.printVariables
        printSelections operation.selections)
      ((firstOffence? variableOffence? operation.variableDefinitions).or
        (offenceEach? operation.selections))
      (operation.namePiece ++
        (operation.variablesPiece ++ selectionsPiece operation.selections)) := by
    unfold Operation.namePiece
    cases operation.shownName? with
    | none =>
      rw [Piece.empty_append]
      exact behind
    | some name => exact behind.behind (writes_push (" " ++ name))
  exact (named.behind (writes_pushIndented operation.kind)).guarded operation.directives
    (.operation operation.kind operation.name)

/-- The piece of a fragment. -/
def Fragment.piece (fragment : Fragment) : Piece :=
  Piece.indented ("fragment " ++ fragment.name ++ " on " ++ fragment.typeCondition) ++
    selectionsPiece fragment.selections

/-- The first directive on a fragment or in it. -/
def Fragment.offence? (fragment : Fragment) : Option Unsupported :=
  (directiveOffence? fragment.directives (.fragment fragment.name)).or
    (offenceEach? fragment.selections)

/-- A fragment stops at the first directive on it or in it, and is written as its
piece. -/
theorem Fragment.answers (fragment : Fragment) :
    fragment.print.Answers fragment.offence? fragment.piece :=
  ((answers_printSelections fragment.selections).behind (writes_pushIndented _)).guarded
    fragment.directives (.fragment fragment.name)

/-- The piece of a definition. -/
def Definition.piece : Definition → Piece
  | operation definition => definition.piece
  | fragment definition => definition.piece

/-- The first directive on a definition or in it. -/
def Definition.offence? : Definition → Option Unsupported
  | operation definition => definition.offence?
  | fragment definition => definition.offence?

/-- A definition stops at the first directive on it or in it, and is written as its
piece. -/
theorem Definition.answers (definition : Definition) :
    definition.print.Answers definition.offence? definition.piece := by
  cases definition with
  | operation source => exact source.answers
  | fragment source => exact source.answers

/-- The piece of a document: its definitions with a line feed behind each. -/
def Document.piece (document : Document) : Piece :=
  Piece.concat document.definitions fun definition => definition.piece ++ Piece.text "\n"

/-- The first directive in a document. -/
def Document.offence? (document : Document) : Option Unsupported :=
  firstOffence? Definition.offence? document.definitions

/-- A document stops at the first directive in it, and is written as its piece. -/
theorem Document.answers (document : Document) :
    document.print.Answers document.offence? document.piece :=
  answers_each fun definition _ => definition.answers.before (writes_push "\n")

/-- The outcome of rendering: the first directive in the canonical order, or the piece
of the canonical document without the blanks at its ends. -/
theorem Document.render_eq (document : Document) (indentWidth maxWidth : Nat) :
    document.render indentWidth maxWidth =
      outcome document.canonical.offence?
        (document.canonical.piece (.start indentWidth maxWidth)) :=
  document.canonical.answers.render_eq indentWidth maxWidth

end GraphQLCanon.Executable
