import Mathlib.Data.List.Basic
import GraphQLCanon.Proofs.SolidPieces

/-!
# Outlines

What a document looks like before the widths are known: rows, one under the other. A row
is a text at a depth, an empty line, or an argument list with what stands around it. Only
an argument list depends on the widths, and on nothing else: it takes one line where that
fits, and a line for each argument where it does not. So an outline says for every row what
becomes of it, whatever was written before. A piece that is written at the beginning of a
line follows an outline when it writes its lines.
-/

namespace GraphQLCanon.Layout

/-- A text at a depth. -/
structure Line where
  depth : Nat
  text : String
  deriving DecidableEq, Repr

namespace Line

/-- A line behind its indentation. -/
def write (indentWidth : Nat) (line : Line) : String :=
  String.ofList (List.replicate (indentWidth * line.depth) ' ') ++ line.text

/-- Lines with a line feed between each two. -/
def join (indentWidth : Nat) (lines : List Line) : String :=
  "\n".intercalate (lines.map (write indentWidth))

/-- A line above others is followed by a line feed. -/
theorem join_cons_cons (indentWidth : Nat) (line second : Line) (others : List Line) :
    join indentWidth (line :: second :: others) =
      line.write indentWidth ++ "\n" ++ join indentWidth (second :: others) := by
  rw [join, List.map_cons, List.map_cons, String.intercalate_cons_cons, join, List.map_cons]

/-- The characters of a line above others are followed by a line feed. -/
theorem toList_join_cons_cons (indentWidth : Nat) (line second : Line) (others : List Line) :
    (join indentWidth (line :: second :: others)).toList =
      (line.write indentWidth).toList ++ '\n' :: (join indentWidth (second :: others)).toList := by
  rw [join_cons_cons, String.append_assoc, String.toList_append, String.toList_append]
  rfl

/-- Lines with a line feed behind each. -/
def stack (indentWidth : Nat) : List Line → String
  | [] => ""
  | line :: others => line.write indentWidth ++ "\n" ++ stack indentWidth others

/-- Lines under others. -/
theorem stack_append (indentWidth : Nat) (upper lower : List Line) :
    stack indentWidth (upper ++ lower) = stack indentWidth upper ++ stack indentWidth lower := by
  induction upper with
  | nil => exact String.empty_append.symm
  | cons line others inductionHypothesis =>
    rw [List.cons_append, stack, inductionHypothesis, stack]
    exact (String.append_assoc ..).symm

/-- A line feed behind the last line. -/
theorem join_line (indentWidth : Nat) {lines : List Line} (nonempty : lines ≠ []) :
    join indentWidth lines ++ "\n" = stack indentWidth lines := by
  induction lines with
  | nil => exact absurd rfl nonempty
  | cons line others inductionHypothesis =>
    cases others with
    | nil => simp [join, stack]
    | cons second others =>
      have more := inductionHypothesis (by simp)
      rw [stack, ← more, join_cons_cons, String.append_assoc]

end Line

/-- An argument list, the depth of its line, and what stands in front of it there. -/
structure ArgumentList where
  depth : Nat
  header : String
  arguments : List String
  deriving DecidableEq, Repr

namespace ArgumentList

/-- The arguments with commas between them. -/
def joined (list : ArgumentList) : String := ", ".intercalate list.arguments

/-- An argument list fits when the indentation, what stands in front of it, two parentheses
and the arguments with commas between them are not longer than a line may be. -/
def Fits (list : ArgumentList) (indentWidth maxWidth : Nat) : Prop :=
  indentWidth * list.depth + list.header.length + 2 + list.joined.length ≤ maxWidth

instance (list : ArgumentList) (indentWidth maxWidth : Nat) :
    Decidable (list.Fits indentWidth maxWidth) :=
  inferInstanceAs (Decidable (_ ≤ _))

/-- An argument list on one line, with what stands behind it there. -/
def inline (list : ArgumentList) (ending : String) : Line :=
  ⟨list.depth, list.header ++ "(" ++ list.joined ++ ")" ++ ending⟩

/-- Every argument on a line of its own, one level deeper and with a comma behind it. -/
def spread (list : ArgumentList) : List Line :=
  list.arguments.map fun argument => ⟨list.depth + 1, argument ++ ","⟩

/-- An argument list on lines of its own: the closing parenthesis comes back to the depth of
the opening one. -/
def wrapped (list : ArgumentList) (ending : String) : List Line :=
  ⟨list.depth, list.header ++ "("⟩ :: (list.spread ++ [⟨list.depth, ")" ++ ending⟩])

/-- The lines of an argument list: one if it fits, else one for each argument. -/
def lines (list : ArgumentList) (ending : String) (indentWidth maxWidth : Nat) : List Line :=
  if list.Fits indentWidth maxWidth then [list.inline ending] else list.wrapped ending

end ArgumentList

/-- What is written under what stands above it and over what stands below. -/
inductive Row
  /-- An empty line. -/
  | gap
  /-- A text at a depth. -/
  | line (depth : Nat) (text : String)
  /-- An argument list and what stands behind it on its last line. -/
  | listed (list : ArgumentList) (ending : String)
  deriving DecidableEq, Repr

namespace Row

/-- The lines of a row. -/
def lines (indentWidth maxWidth : Nat) : Row → List Line
  | gap => [⟨0, ""⟩]
  | line depth text => [⟨depth, text⟩]
  | listed list ending => list.lines ending indentWidth maxWidth

/-- The lines of an outline. -/
def linesEach (rows : List Row) (indentWidth maxWidth : Nat) : List Line :=
  rows.flatMap (lines indentWidth maxWidth)

/-- The text of an outline. -/
def write (rows : List Row) (indentWidth maxWidth : Nat) : String :=
  Line.join indentWidth (linesEach rows indentWidth maxWidth)

/-- The argument list of a row, if it is about one. -/
def argumentList? : Row → Option ArgumentList
  | listed list _ => some list
  | gap | line _ _ => none

/-- The argument lists of an outline, in order. -/
def argumentLists (rows : List Row) : List ArgumentList := rows.filterMap argumentList?

/-- The argument lists of one outline under another. -/
theorem argumentLists_append (upper lower : List Row) :
    argumentLists (upper ++ lower) = argumentLists upper ++ argumentLists lower :=
  List.filterMap_append

/-- A text has no argument list. -/
theorem argumentLists_line (depth : Nat) (text : String) : argumentLists [line depth text] = [] :=
  rfl

/-- Empty lines have no argument lists. -/
theorem argumentLists_intercalate_gap (outlines : List (List Row)) :
    argumentLists ([gap].intercalate outlines) = outlines.flatMap argumentLists := by
  induction outlines with
  | nil => rfl
  | cons first others inductionHypothesis =>
    cases others with
    | nil => simp
    | cons second others =>
      rw [List.intercalate_cons_cons, argumentLists_append, argumentLists_append,
        inductionHypothesis, List.flatMap_cons]
      exact congrArg (· ++ _) (List.append_nil _)

/-- Every row has a line. -/
theorem lines_ne_nil (row : Row) (indentWidth maxWidth : Nat) :
    row.lines indentWidth maxWidth ≠ [] := by
  cases row with
  | gap | line depth text => simp [lines]
  | listed list ending =>
    rw [lines, ArgumentList.lines]
    split
    · simp
    · simp [ArgumentList.wrapped]

/-- An outline with a row has a line. -/
theorem linesEach_ne_nil {rows : List Row} (nonempty : rows ≠ []) (indentWidth maxWidth : Nat) :
    linesEach rows indentWidth maxWidth ≠ [] := by
  obtain ⟨row, others, rfl⟩ := List.exists_cons_of_ne_nil nonempty
  simp [linesEach, lines_ne_nil row indentWidth maxWidth]

/-- The lines of one outline under another. -/
theorem linesEach_append (upper lower : List Row) (indentWidth maxWidth : Nat) :
    linesEach (upper ++ lower) indentWidth maxWidth =
      linesEach upper indentWidth maxWidth ++ linesEach lower indentWidth maxWidth :=
  List.flatMap_append

/-- One outline under another is written behind a line feed. -/
theorem write_append {upper lower : List Row} (someUpper : upper ≠ []) (someLower : lower ≠ [])
    (indentWidth maxWidth : Nat) : write (upper ++ lower) indentWidth maxWidth =
      write upper indentWidth maxWidth ++ "\n" ++ write lower indentWidth maxWidth := by
  rw [write, linesEach_append, Line.join, List.map_append, String.intercalate_append_of_ne_nil]
  · rfl
  · simpa using linesEach_ne_nil someUpper indentWidth maxWidth
  · simpa using linesEach_ne_nil someLower indentWidth maxWidth

/-- Outlines with an empty line between each two are written as their texts with two line
feeds between each two. -/
theorem write_intercalate_gap {outlines : List (List Row)} (some : ∀ rows ∈ outlines, rows ≠ [])
    (indentWidth maxWidth : Nat) :
    write ([gap].intercalate outlines) indentWidth maxWidth =
      "\n\n".intercalate (outlines.map fun rows => write rows indentWidth maxWidth) := by
  induction outlines with
  | nil => rfl
  | cons first others inductionHypothesis =>
    cases others with
    | nil => simp
    | cons second others =>
      have more := inductionHypothesis fun rows inside => some rows (List.mem_cons_of_mem _ inside)
      have someFirst := some first List.mem_cons_self
      have someSecond := some second (List.mem_cons_of_mem _ List.mem_cons_self)
      have someBehind : [gap].intercalate (second :: others) ≠ [] := by
        cases others with
        | nil => simpa using someSecond
        | cons third others => simp [List.intercalate_cons_cons]
      have empty : write [gap] indentWidth maxWidth = "" := by
        simp [write, linesEach, lines, Line.join, Line.write]
      rw [List.intercalate_cons_cons, List.append_assoc, write_append someFirst (by simp),
        write_append (by simp) someBehind, empty, more, List.map_cons, List.map_cons, List.map_cons,
        String.intercalate_cons_cons, String.empty_append, ← String.append_assoc]
      exact congrArg (· ++ _) (String.append_assoc ..)

end Row

/-- A text without line feeds lengthens the last line by its length. -/
theorem lineLengthAfter_of_unbroken {written : List Char} (unbroken : '\n' ∉ written)
    (length : Nat) : lineLengthAfter length written = length + written.length := by
  induction written generalizing length with
  | nil => rfl
  | cons first others inductionHypothesis =>
    rw [List.mem_cons, not_or] at unbroken
    rw [lineLengthAfter, if_neg (Ne.symm unbroken.1), inductionHypothesis unbroken.2,
      List.length_cons]
    omega

/-- There is no line feed in a legible name. -/
theorem unbroken_name {name : String} (legible : (Lexical.Token.name name).Legible) :
    '\n' ∉ name.toList := by
  obtain ⟨first, others, spelled, start, continued⟩ := Lexical.isName_of_legible legible
  rw [spelled, List.mem_cons, not_or]
  constructor
  · rintro rfl
    contradiction
  · intro inside
    have := continued '\n' inside
    contradiction

/-- The position behind two texts. -/
theorem Position.after_append (position : Position) (left right : String) :
    position.after (left ++ right) = (position.after left).after right := by
  simp [Position.after, lineLengthAfter_append]

namespace Piece

/-- A piece that is written as an outline at the beginning of every line. The outline depends
on the depth of the line only. -/
def Follows (piece : Piece) (rows : Nat → List Row) : Prop :=
  ∀ indentWidth maxWidth depth : Nat, piece ⟨indentWidth, maxWidth, depth, 0⟩ =
    Line.stack indentWidth (Row.linesEach (rows depth) indentWidth maxWidth)

/-- A piece that ends in the middle of a line: whatever ends this line, an outline is
followed. -/
def Heads (piece : Piece) (rows : Nat → String → List Row) : Prop :=
  ∀ ending, (piece ++ text (ending ++ "\n")).Follows fun depth => rows depth ending

variable {first second piece body : Piece} {upper lower inner : Nat → List Row}
  {rows : Nat → String → List Row}

/-- Behind lines begins a line. -/
theorem after_stack {position : Position} (flush : position.lineLength = 0) (indentWidth : Nat)
    (lines : List Line) : position.after (Line.stack indentWidth lines) = position := by
  induction lines with
  | nil => rfl
  | cons line others inductionHypothesis =>
    rw [Line.stack, Position.after_append, after_line flush, inductionHypothesis]

/-- Two pieces follow their outlines one under the other. -/
theorem Follows.append (one : first.Follows upper) (two : second.Follows lower) :
    (first ++ second).Follows fun depth => upper depth ++ lower depth := by
  intro indentWidth maxWidth depth
  change first _ ++ second (Position.after _ (first _)) = _
  rw [one, after_stack rfl, two, Row.linesEach_append, Line.stack_append]

/-- Nothing follows an outline without rows. -/
theorem follows_empty : (text "").Follows fun _ => [] := fun _ _ _ => rfl

/-- Pieces of items follow their outlines one under the other. -/
theorem follows_concat {α : Type} {items : List α} {piece : α → Piece} {rows : Nat → α → List Row}
    (each : ∀ item ∈ items, (piece item).Follows (rows · item)) :
    (concat items piece).Follows fun depth => items.flatMap (rows depth) := by
  induction items with
  | nil => exact follows_empty
  | cons item others inductionHypothesis =>
    have one := each item List.mem_cons_self
    have more := inductionHypothesis fun other inside => each other (List.mem_cons_of_mem _ inside)
    exact one.append more

/-- The indentation of a line. -/
theorem spaces_eq (indentWidth depth lineLength : Nat) (maxWidth : Int) :
    Position.spaces ⟨indentWidth, maxWidth, depth, lineLength⟩ =
      String.ofList (List.replicate (indentWidth * depth) ' ') := by
  have product : ((indentWidth : Int) * (depth : Int)).toNat = indentWidth * depth := by
    rw [← Int.natCast_mul, Int.toNat_natCast]
  exact congrArg (fun count => String.ofList (List.replicate count ' ')) product

/-- A text behind the indentation and a line feed are a line. -/
theorem follows_line (written : String) :
    (indented (written ++ "\n")).Follows fun depth => [.line depth written] := by
  intro indentWidth maxWidth depth
  rw [indented, spaces_eq, ← String.append_assoc]
  exact String.append_empty.symm

/-- A line feed at the beginning of a line is an empty line. -/
theorem follows_gap : (text "\n").Follows fun _ => [.gap] := by
  intro indentWidth maxWidth depth
  simp [text, Row.linesEach, Row.lines, Line.stack, Line.write]

/-- A text behind the indentation begins a line. -/
theorem heads_indented (header : String) :
    (indented header).Heads fun depth ending => [.line depth (header ++ ending)] := by
  intro ending
  have line : indented header ++ text (ending ++ "\n") = indented (header ++ ending ++ "\n") := by
    funext position
    change position.spaces ++ header ++ (ending ++ "\n") = position.spaces ++ _
    rw [String.append_assoc, String.append_assoc]
  rw [line]
  exact follows_line _

/-- A text that prolongs a line stands in front of its end. -/
theorem Heads.append_text (heads : piece.Heads rows) (more : String) :
    (piece ++ text more).Heads fun depth ending => rows depth (more ++ ending) := by
  intro ending
  have joined : text more ++ text (ending ++ "\n") = text (more ++ ending ++ "\n") :=
    funext fun _ => (String.append_assoc ..).symm
  rw [append_assoc, joined]
  exact heads (more ++ ending)

/-- Nothing prolongs a line. -/
theorem Heads.line (heads : piece.Heads rows) :
    (piece ++ text "\n").Follows fun depth => rows depth "" :=
  heads ""

/-- A piece under whole lines. -/
theorem Follows.heads (one : first.Follows upper) (heads : second.Heads rows) :
    (first ++ second).Heads fun depth ending => upper depth ++ rows depth ending := by
  intro ending
  rw [append_assoc]
  exact one.append (heads ending)

/-- A piece one level deeper follows its outline there. -/
theorem Follows.deeper (follows : body.Follows inner) :
    (Piece.deeper body).Follows fun depth => inner (depth + 1) :=
  fun indentWidth maxWidth depth => follows indentWidth maxWidth (depth + 1)

/-- A block behind a piece: its opening sign ends the line, its body stands one level deeper
and its closing sign begins a line. -/
theorem Heads.block (heads : piece.Heads rows) (follows : body.Follows inner)
    (opening closing : String) :
    (piece ++ Piece.block (opening ++ "\n") closing body).Heads fun depth ending =>
      rows depth opening ++ (inner (depth + 1) ++ [.line depth (closing ++ ending)]) := by
  intro ending
  have below := follows.deeper.append (heads_indented closing ending)
  rw [Piece.block, append_assoc, append_assoc, append_assoc, ← append_assoc]
  exact (heads opening).append below

/-- A block in braces behind a piece ends with a line. -/
theorem Heads.braces (heads : piece.Heads rows) (follows : body.Follows inner) :
    (piece ++ Piece.braces body).Follows fun depth =>
      rows depth " \x7b" ++ (inner (depth + 1) ++ [.line depth "\x7d"]) := by
  rw [braces_eq, ← append_assoc]
  exact (heads.block follows " \x7b" "\x7d").line

/-- An argument list behind a header on one line is a row of its own. Whether it fits depends
on the header, which has no line feed, and on the indentation. -/
theorem heads_arguments {header : String} (unbroken : '\n' ∉ header.toList)
    (arguments : List String) :
    (indented header ++ Piece.arguments arguments).Heads fun depth ending =>
      [.listed ⟨depth, header, arguments⟩ ending] := by
  intro ending indentWidth maxWidth depth
  have begun : indented header ⟨indentWidth, maxWidth, depth, 0⟩ =
      String.ofList (List.replicate (indentWidth * depth) ' ' ++ header.toList) := by
    rw [indented, spaces_eq, String.ofList_append, String.ofList_toList]
  have flat : '\n' ∉ List.replicate (indentWidth * depth) ' ' ++ header.toList := by
    simp [List.mem_replicate, unbroken]
  have column : Position.after ⟨indentWidth, maxWidth, depth, 0⟩
      (indented header ⟨indentWidth, maxWidth, depth, 0⟩) =
        ⟨indentWidth, maxWidth, depth, indentWidth * depth + header.length⟩ := by
    rw [begun, Position.after, String.toList_ofList, lineLengthAfter_of_unbroken flat]
    simp [String.length_toList]
  have fits : argumentsFit arguments
      ⟨indentWidth, maxWidth, depth, indentWidth * depth + header.length⟩ =
        decide (ArgumentList.Fits ⟨depth, header, arguments⟩ indentWidth maxWidth) := by
    have opening : lineLengthAfter (indentWidth * depth + header.length) "(".toList =
        indentWidth * depth + header.length + 1 := rfl
    have closing : ")".length = 1 := rfl
    simp only [argumentsFit, Output.fits, Position.after, opening, ArgumentList.Fits,
      ArgumentList.joined, String.length_append, closing]
    congr 1
    apply propext
    omega
  by_cases short : ArgumentList.Fits ⟨depth, header, arguments⟩ indentWidth maxWidth
  · have inline : Piece.arguments arguments
        ⟨indentWidth, maxWidth, depth, indentWidth * depth + header.length⟩ =
          "(" ++ (", ".intercalate arguments ++ ")") := by
      rw [Piece.arguments, fits, decide_eq_true short, cond_true]
    change indented header _ ++ Piece.arguments arguments (Position.after _ (indented header _)) ++
      (ending ++ "\n") = _
    rw [column, inline, indented, spaces_eq]
    simp [Row.linesEach, Row.lines, ArgumentList.lines, ArgumentList.inline, ArgumentList.joined,
      short, Line.stack, Line.write, String.append_assoc]
  · have wrapped : (indented header ++ Piece.arguments arguments)
        ⟨indentWidth, maxWidth, depth, 0⟩ = (indented header ++ Piece.block "(\n" ")"
          (concat arguments fun argument => indented (argument ++ ",\n")))
            ⟨indentWidth, maxWidth, depth, 0⟩ := by
      change indented header _ ++ Piece.arguments arguments (Position.after _ _) =
        indented header _ ++ Piece.block _ _ _ (Position.after _ _)
      rw [column, Piece.arguments, fits, decide_eq_false short, cond_false]
    have each : (concat arguments fun argument => indented (argument ++ ",\n")).Follows
        fun depth => arguments.flatMap fun argument => [.line depth (argument ++ ",")] := by
      refine follows_concat fun argument _ => ?_
      have line := follows_line (argument ++ ",")
      rw [String.append_assoc] at line
      exact line
    have lines := (heads_indented header).block each "(" ")" ending indentWidth maxWidth depth
    change (indented header ++ Piece.arguments arguments) _ ++ (ending ++ "\n") = _
    rw [wrapped]
    refine lines.trans ?_
    simp [Row.linesEach, Row.lines, ArgumentList.lines, ArgumentList.wrapped, ArgumentList.spread,
      short, List.flatMap_assoc, List.map_eq_flatMap]

/-- The row of a description, if there is one. -/
def descriptionRows (depth : Nat) : Option String → List Row
  | none => []
  | some value => [.line depth (Lexical.QuotedString.write value)]

/-- A description is a line. -/
theorem follows_description (value? : Option String) :
    (description value?).Follows (descriptionRows · value?) := by
  cases value? with
  | none => exact follows_empty
  | some value => exact follows_line _

end Piece

end GraphQLCanon.Layout
