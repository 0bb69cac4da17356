import GraphQLCanon.Text.Lines

/-!
# Places and excerpts

A place in a text is a line and a column, both counted from one. An excerpt shows
the line of a place with its neighbours and a caret under the column. Rows are
labelled with line numbers, and the labels are aligned at their right ends.
-/

namespace GraphQLCanon.Text

/-- A line and a column, both counted from one. -/
structure Place where
  line : Nat
  column : Nat
  deriving DecidableEq, Repr

/-- The place behind some characters: a line more than they have breaks, and a
column more than their last line has characters. -/
def Place.behind (before : List Char) : Place :=
  let all := lines before
  ⟨all.length, (all.getLastD []).length + 1⟩

/-- The longest line that is shown in one piece. -/
def excerptWidth : Nat := 120

/-- The length of the pieces of a longer line. -/
def pieceWidth : Nat := 80

/-- One row of an excerpt: a label, which is a line number or nothing, and a
text. -/
structure ExcerptRow where
  number : Option Nat
  text : List Char
  deriving DecidableEq, Repr

/-- What stands in front of the text of a row. -/
def ExcerptRow.label (row : ExcerptRow) : String :=
  match row.number with
  | some number => toString number ++ " |"
  | none => "|"

/-- A row with its label aligned to a width. -/
def ExcerptRow.write (width : Nat) (row : ExcerptRow) : String :=
  let label := String.ofList (row.label.toList.leftpad width ' ')
  if row.text.isEmpty then label else label ++ " " ++ String.ofList row.text

/-- A caret at the end of so many columns, at least one. -/
def caret (width : Nat) : List Char := ['^'].leftpad width ' '

/-- A piece of a line that is too long to be shown whole, if the line reaches so
far. -/
def piece? (line : List Char) (index : Nat) : Option (List Char) :=
  match (line.drop (index * pieceWidth)).take pieceWidth with
  | [] => none
  | piece => some piece

/-- The rows for a line that is shown whole, with the lines around it. -/
def wholeRows (all : List (List Char)) (place : Place) (line : List Char) : List ExcerptRow :=
  let before := if place.line < 2 then none else all[place.line - 2]?
  let behind := all[place.line]?
  (before.map (ExcerptRow.mk (some (place.line - 1)))).toList ++
    [⟨some place.line, line⟩, ⟨none, caret place.column⟩] ++
    (behind.map (ExcerptRow.mk (some (place.line + 1)))).toList

/-- The rows for a line that is shown in pieces: those up to the caret, the caret,
and one piece more. -/
def pieceRows (place : Place) (line : List Char) : List ExcerptRow :=
  let last := place.column / pieceWidth
  let upTo := (List.range last).filterMap fun index => piece? line (index + 1)
  [⟨some place.line, (piece? line 0).getD []⟩] ++
    upTo.map (ExcerptRow.mk none) ++
    [⟨none, caret (place.column % pieceWidth)⟩] ++
    ((piece? line (last + 1)).map (ExcerptRow.mk none)).toList

/-- The rows around a place of a text. -/
def excerptRows (text : List Char) (place : Place) : List ExcerptRow :=
  let all := lines text
  let line := all.getD (place.line - 1) []
  if line.length ≤ excerptWidth then wholeRows all place line else pieceRows place line

/-- The excerpt of a text around a place. -/
def excerpt (text : List Char) (place : Place) : String :=
  let rows := excerptRows text place
  let width := (rows.map fun row => row.label.length).foldl max 0
  "\n".intercalate (rows.map (ExcerptRow.write width))

end GraphQLCanon.Text
