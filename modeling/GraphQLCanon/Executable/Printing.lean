import GraphQLCanon.Layout.Printing
import GraphQLCanon.Executable.Canonical

/-!
# Printing executable documents

The printers write a document in the order in which it is given; what is printed
is the canonical order. Directives have no canonical place, so the first one met
stops the printing: at a definition before its variables, and at a selection
before the selections below it.
-/

namespace GraphQLCanon.Executable

open GraphQLCanon.Layout

/-- Writes the first line of an inline fragment, up to its selections. -/
def printInlineHeader (typeCondition : Option String) (directives : List String) :
    Printing Unit :=
  match typeCondition with
  | some type => do
    Printing.rejectDirectives directives (.typedInlineFragment type)
    Printing.pushIndented ("... on " ++ type)
  | none => do
    Printing.rejectDirectives directives .inlineFragment
    Printing.pushIndented "..."

/-- Writes a field up to its selections. -/
def Field.print (field : Field) : Printing Unit := do
  Printing.rejectDirectives field.directives (.selectedField field.name)
  Printing.pushIndented field.header
  if field.arguments.isEmpty then pure ()
  else Printing.pushArguments (field.arguments.map Argument.write)

mutual

/-- Writes a selection. A field without selections ends its line; an inline
fragment without any does not. -/
def Selection.print : Selection → Printing Unit
  | .field head selections => do
    head.print
    if selections.isEmpty then Printing.push "\n" else Printing.braces (printEach selections)
  | .spread name directives => do
    Printing.rejectDirectives directives (.spread name)
    Printing.pushIndented ("..." ++ name ++ "\n")
  | .inline typeCondition directives selections => do
    printInlineHeader typeCondition directives
    if selections.isEmpty then pure () else Printing.braces (printEach selections)

/-- Writes selections one after another. -/
def printEach : List Selection → Printing Unit
  | [] => pure ()
  | selection :: selections => do
    selection.print
    printEach selections

end

/-- Writes the selections of a definition, if it has any. -/
def printSelections (selections : List Selection) : Printing Unit :=
  if selections.isEmpty then pure () else Printing.braces (printEach selections)

/-- Stops at the first directive on a variable. -/
def rejectVariableDirectives (variableDefinitions : List Variable) : Printing Unit :=
  Printing.each variableDefinitions fun variableDefinition =>
    Printing.rejectDirectives variableDefinition.directives
      (.variableDefinition variableDefinition.name)

/-- Writes the variables of an operation on the current line, if it has any. Behind
a keyword without a name they are set off by a space. -/
def Operation.printVariables (operation : Operation) : Printing Unit :=
  if operation.variableDefinitions.isEmpty then pure ()
  else do
    if operation.shownName?.isNone then Printing.push " "
    rejectVariableDirectives operation.variableDefinitions
    Printing.push ("(" ++ ", ".intercalate (operation.variableDefinitions.map Variable.write) ++ ")")

/-- Writes an operation. -/
def Operation.print (operation : Operation) : Printing Unit := do
  Printing.rejectDirectives operation.directives (.operation operation.kind operation.name)
  Printing.pushIndented operation.kind
  match operation.shownName? with
  | some name => Printing.push (" " ++ name)
  | none => pure ()
  operation.printVariables
  printSelections operation.selections

/-- Writes a fragment. -/
def Fragment.print (fragment : Fragment) : Printing Unit := do
  Printing.rejectDirectives fragment.directives (.fragment fragment.name)
  Printing.pushIndented ("fragment " ++ fragment.name ++ " on " ++ fragment.typeCondition)
  printSelections fragment.selections

/-- Writes a definition. -/
def Definition.print : Definition → Printing Unit
  | operation definition => definition.print
  | fragment definition => definition.print

/-- Writes definitions with an empty line behind each. -/
def Document.print (document : Document) : Printing Unit :=
  Printing.each document.definitions fun definition => do
    definition.print
    Printing.push "\n"

/-- The canonical form of a document. -/
def Document.render (document : Document) (indentWidth maxWidth : Nat) :
    Except PrintError String :=
  Printing.render document.canonical.print indentWidth maxWidth

end GraphQLCanon.Executable
