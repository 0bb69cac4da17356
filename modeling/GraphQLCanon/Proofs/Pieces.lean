import GraphQLCanon.Layout.Printing

/-!
# What printers write

A printer that does not stop adds a text to its output and leaves the depth as it
was. The text depends on the position only: the widths, the depth and the length of
the last line. So a printer is described by a piece, a text for every position, and
by the construct at which it stops instead, if there is one. Both are put together
from the parts of the printer.
-/

namespace GraphQLCanon.Layout

/-- Where a text is written. -/
structure Position where
  indentWidth : Int
  maxWidth : Int
  depth : Nat
  lineLength : Nat
  deriving DecidableEq, Repr

/-- The position behind all that was written. -/
def Output.position (output : Output) : Position :=
  ⟨output.indentWidth, output.maxWidth, output.depth, output.lineLength⟩

namespace Position

/-- The first position of an output. -/
def start (indentWidth maxWidth : Int) : Position := ⟨indentWidth, maxWidth, 0, 0⟩

/-- The indentation at a position. -/
def spaces (position : Position) : String :=
  String.ofList (List.replicate (position.indentWidth * position.depth).toNat ' ')

/-- The position behind a text. -/
def after (position : Position) (text : String) : Position :=
  { position with lineLength := lineLengthAfter position.lineLength text.toList }

/-- The same place one level deeper. -/
def deeper (position : Position) : Position := { position with depth := position.depth + 1 }

end Position

/-- What is written at every position. -/
abbrev Piece : Type := Position → String

namespace Piece

/-- A text as it is. -/
def text (written : String) : Piece := fun _ => written

/-- A text behind the indentation. -/
def indented (written : String) : Piece := fun position => position.spaces ++ written

/-- A piece and another one behind it. -/
def append (first second : Piece) : Piece := fun position =>
  first position ++ second (position.after (first position))

instance : Append Piece := ⟨append⟩

/-- A piece one level deeper. -/
def deeper (body : Piece) : Piece := fun position => body position.deeper

/-- The pieces of some items, one behind the other. -/
def concat {α : Type} (items : List α) (piece : α → Piece) : Piece :=
  match items with
  | [] => text ""
  | item :: others => piece item ++ concat others piece

/-- A description on a line of its own, or nothing. -/
def description : Option String → Piece
  | none => text ""
  | some value => indented (Lexical.QuotedString.write value ++ "\n")

/-- A block one level deeper between two signs, the closing one on a line of its own. -/
def block (opening closing : String) (body : Piece) : Piece :=
  text opening ++ (deeper body ++ indented closing)

/-- A block in braces. -/
def braces (body : Piece) : Piece := block " \x7b\n" "\x7d\n" body

/-- True when arguments fit on the current line. -/
def argumentsFit (arguments : List String) (position : Position) : Bool :=
  Output.fits ((position.after "(").lineLength + (", ".intercalate arguments ++ ")").length)
    position.maxWidth

/-- Arguments in parentheses, on the current line or on a line each. -/
def arguments (arguments : List String) : Piece := fun position =>
  bif argumentsFit arguments position then "(" ++ (", ".intercalate arguments ++ ")")
  else block "(\n" ")" (concat arguments fun argument => indented (argument ++ ",\n")) position

end Piece

/-- Nothing in front of a piece changes it. -/
theorem Piece.empty_append (piece : Piece) : Piece.text "" ++ piece = piece :=
  funext fun _ => String.empty_append

/-- Nothing behind a piece changes it. -/
theorem Piece.append_empty (piece : Piece) : piece ++ Piece.text "" = piece :=
  funext fun _ => String.append_empty

/-- Pieces of changed items are changed pieces of the items. -/
theorem Piece.concat_map {α β : Type} (items : List α) (change : α → β) (piece : β → Piece) :
    Piece.concat (items.map change) piece = Piece.concat items fun item => piece (change item) := by
  induction items with
  | nil => rfl
  | cons first others inductionHypothesis =>
    rw [List.map_cons, Piece.concat, Piece.concat, inductionHypothesis]

/-- The line length behind two parts of a text is that behind the whole. -/
theorem lineLengthAfter_append (length : Nat) (left right : List Char) :
    lineLengthAfter length (left ++ right) =
      lineLengthAfter (lineLengthAfter length left) right := by
  induction left generalizing length with
  | nil => rfl
  | cons character rest inductionHypothesis =>
    rw [List.cons_append, lineLengthAfter, lineLengthAfter, inductionHypothesis]

/-- Behind a line feed the line is empty. -/
theorem lineLengthAfter_feed (length : Nat) (line : List Char) :
    lineLengthAfter length (line ++ ['\n']) = 0 := by
  rw [lineLengthAfter_append]
  rfl

/-- Three pieces in a row. -/
theorem Piece.append_assoc (first second third : Piece) :
    first ++ second ++ third = first ++ (second ++ third) := by
  funext position
  have behind : position.after (first position ++ second (position.after (first position))) =
      (position.after (first position)).after (second (position.after (first position))) := by
    simp [Position.after, lineLengthAfter_append]
  change (first position ++ _) ++ third (position.after (first position ++ _)) = _
  rw [behind, String.append_assoc]
  rfl

/-- A line feed behind the closing sign of a block stands behind the block. -/
theorem Piece.block_line (opening closing : String) (body : Piece) :
    block opening (closing ++ "\n") body = block opening closing body ++ text "\n" := by
  have closed : indented (closing ++ "\n") = indented closing ++ text "\n" := by
    funext position
    exact (String.append_assoc ..).symm
  rw [block, closed, block, append_assoc, append_assoc]

/-- A line feed ends a block in braces. -/
theorem Piece.braces_eq (body : Piece) :
    braces body = block " \x7b\n" "\x7d" body ++ text "\n" :=
  block_line " \x7b\n" "\x7d" body

namespace Output

/-- Writing two texts is writing them as one. -/
theorem push_push (output : Output) (left right : String) :
    (output.push left).push right = output.push (left ++ right) := by
  simp [push, lineLengthAfter_append, String.append_assoc]

/-- Writing nothing changes nothing. -/
theorem push_empty (output : Output) : output.push "" = output := by
  simp [push, lineLengthAfter]

/-- Writing a piece and then another one is writing them as one. -/
theorem push_append (output : Output) (first second : Piece) :
    (output.push (first output.position)).push
        (second (output.push (first output.position)).position) =
      output.push ((first ++ second) output.position) :=
  push_push output _ _

/-- Lines of arguments are pieces one level deeper. -/
theorem pushDeeperLines_eq (output : Output) (arguments : List String) :
    output.pushDeeperLines arguments =
      output.indent.push (Piece.concat arguments
        (fun argument => Piece.indented (argument ++ ",\n")) output.indent.position) := by
  unfold pushDeeperLines
  generalize output.indent = deep
  induction arguments generalizing deep with
  | nil => exact (push_empty deep).symm
  | cons first others inductionHypothesis =>
    rw [List.foldl_cons, inductionHypothesis]
    exact push_append deep (Piece.indented (first ++ ",\n"))
      (Piece.concat others fun argument => Piece.indented (argument ++ ",\n"))

/-- Behind lines of arguments there is a level to come back from, which is the one that was
entered before them. -/
theorem dedent?_pushDeeperLines (output : Output) (arguments : List String) :
    (output.pushDeeperLines arguments).dedent? =
      some (output.push (Piece.deeper
        (Piece.concat arguments fun argument => Piece.indented (argument ++ ",\n"))
          output.position)) := by
  rw [pushDeeperLines_eq]
  rfl

/-- Arguments on a line each are pieces one level deeper. -/
theorem pushArgumentLines_eq (output : Output) (arguments : List String) :
    output.pushArgumentLines arguments =
      output.push (Piece.deeper
        (Piece.concat arguments fun argument => Piece.indented (argument ++ ",\n"))
          output.position) := by
  rw [pushArgumentLines, dedent?_pushDeeperLines, Option.getD_some]

/-- An argument list is written as its piece. -/
theorem pushArguments_eq (output : Output) (arguments : List String) :
    output.pushArguments arguments = output.push (Piece.arguments arguments output.position) := by
  change (bif Piece.argumentsFit arguments output.position
    then (output.push "(").push (", ".intercalate arguments ++ ")")
    else (((output.push "(").push "\n").pushArgumentLines arguments).pushIndented ")") = _
  unfold Piece.arguments
  cases Piece.argumentsFit arguments output.position with
  | true => exact push_push output _ _
  | false =>
    have opened : (output.push "(").push "\n" = output.push "(\n" := push_push output "(" "\n"
    rw [cond_false, cond_false, opened, pushArgumentLines_eq]
    exact (push_append (output.push "(\n") _ (Piece.indented ")")).trans
      (push_append output (Piece.text "(\n") _)

end Output

namespace Printing

/-- A printer that writes a piece. -/
def Writes (printing : Printing Unit) (piece : Piece) : Prop :=
  ∀ output, printing output = .ok ((), output.push (piece output.position))

/-- A printer that stops at a construct. -/
def Stops (printing : Printing Unit) (construct : Unsupported) : Prop :=
  ∀ output, printing output = .error (.unsupported construct)

/-- A printer that stops at an offence if there is one, and writes a piece if there is
none. -/
def Answers (printing : Printing Unit) (offence? : Option Unsupported) (piece : Piece) : Prop :=
  match offence? with
  | none => printing.Writes piece
  | some construct => printing.Stops construct

variable {first second : Printing Unit} {firstPiece secondPiece : Piece}
  {one? two? : Option Unsupported}

/-- Behind a printer that writes a piece, the next one goes on behind the piece. -/
theorem Writes.bind_eq (writes : first.Writes firstPiece) (next : Unit → Printing Unit)
    (output : Output) :
    (first >>= next) output = next () (output.push (firstPiece output.position)) := by
  simp [bind, StateT.bind, Except.bind, writes output]

/-- Two printers in sequence stop where the first one does, else where the second one
does, and write their pieces in order. -/
theorem Answers.bind (one : first.Answers one? firstPiece)
    (two : second.Answers two? secondPiece) :
    Answers (first >>= fun _ => second) (one?.or two?)
      (firstPiece ++ secondPiece) := by
  cases one? with
  | some construct =>
    intro output
    have stopped := one output
    simp [Bind.bind, StateT.bind, Except.bind, stopped]
  | none =>
    have step := Writes.bind_eq one fun _ => second
    cases two? with
    | some construct =>
      intro output
      rw [step]
      exact two _
    | none =>
      intro output
      rw [step, two]
      exact congrArg (fun written => Except.ok ((), written)) (Output.push_append output _ _)

/-- What is written in front of a printer does not stop it. -/
theorem Answers.behind (two : second.Answers two? secondPiece) (one : first.Writes firstPiece) :
    Answers (first >>= fun _ => second) two? (firstPiece ++ secondPiece) := by
  have one : first.Answers none firstPiece := one
  exact one.bind two

/-- What is written behind a printer does not stop it. -/
theorem Answers.before (one : first.Answers one? firstPiece)
    (two : second.Writes secondPiece) :
    Answers (first >>= fun _ => second) one? (firstPiece ++ secondPiece) := by
  have two : second.Answers none secondPiece := two
  simpa using one.bind two

/-- A printer that does nothing writes the empty text. -/
theorem writes_pure : Writes (pure ()) (Piece.text "") :=
  fun output => congrArg (fun written => Except.ok ((), written)) (Output.push_empty output).symm

/-- A text is written as it is. -/
theorem writes_push (written : String) : (push written).Writes (Piece.text written) :=
  fun _ => rfl

/-- A text is written behind the indentation. -/
theorem writes_pushIndented (written : String) :
    (pushIndented written).Writes (Piece.indented written) :=
  fun _ => rfl

/-- A description is written as its piece. -/
theorem writes_pushDescription (description : Option String) :
    (pushDescription description).Writes (Piece.description description) := by
  cases description with
  | none => exact fun output =>
      congrArg (fun written => Except.ok ((), written)) (Output.push_empty output).symm
  | some value => exact fun _ => rfl

/-- Arguments are written as their piece. -/
theorem writes_pushArguments (arguments : List String) :
    (pushArguments arguments).Writes (Piece.arguments arguments) :=
  fun output =>
    congrArg (fun written => Except.ok ((), written)) (Output.pushArguments_eq output arguments)

/-- The first directive that an owner carries, as a construct that is not supported. -/
def directiveOffence? (directives : List String) (owner : DirectiveOwner) : Option Unsupported :=
  directives.head?.map fun name => .directive name owner

/-- Directives stop a printer at the first one, and write nothing. -/
theorem answers_rejectDirectives (directives : List String) (owner : DirectiveOwner) :
    (rejectDirectives directives owner).Answers (directiveOffence? directives owner)
      (Piece.text "") := by
  cases directives with
  | nil => exact writes_pure
  | cons first others => exact fun _ => rfl

/-- A printer behind a check of directives stops at the first one, else where it stops
itself. -/
theorem Answers.guarded (two : second.Answers two? secondPiece) (directives : List String)
    (owner : DirectiveOwner) :
    Answers (rejectDirectives directives owner >>= fun _ => second)
      ((directiveOffence? directives owner).or two?) secondPiece := by
  have both := (answers_rejectDirectives directives owner).bind two
  rw [Piece.empty_append] at both
  exact both

/-- A printer behind a check of directives that does not stop itself. -/
theorem Writes.guarded (two : second.Writes secondPiece) (directives : List String)
    (owner : DirectiveOwner) :
    Answers (rejectDirectives directives owner >>= fun _ => second)
      (directiveOffence? directives owner) secondPiece := by
  have both := (answers_rejectDirectives directives owner).before two
  rw [Piece.empty_append] at both
  exact both

/-- Two pieces are written in order. -/
theorem Writes.bind (one : first.Writes firstPiece) (two : second.Writes secondPiece) :
    Writes (first >>= fun _ => second) (firstPiece ++ secondPiece) := by
  have two : second.Answers none secondPiece := two
  exact two.behind one

/-- The first offence among some items. -/
def firstOffence? {α : Type} (offence? : α → Option Unsupported) : List α → Option Unsupported
  | [] => none
  | item :: others => (offence? item).or (firstOffence? offence? others)

/-- Nothing is met among items when nothing is met in any of them. -/
theorem firstOffence?_eq_none {α : Type} {offence? : α → Option Unsupported} {items : List α} :
    firstOffence? offence? items = none ↔ ∀ item ∈ items, offence? item = none := by
  induction items with
  | nil => simp [firstOffence?]
  | cons first others inductionHypothesis =>
    simp [firstOffence?, Option.or_eq_none_iff, inductionHypothesis]

/-- Items are printed until one stops, and write their pieces in order. -/
theorem answers_each {α : Type} {items : List α} {print : α → Printing Unit}
    {offence? : α → Option Unsupported} {piece : α → Piece}
    (answers : ∀ item ∈ items, (print item).Answers (offence? item) (piece item)) :
    (each items print).Answers (firstOffence? offence? items) (Piece.concat items piece) := by
  induction items with
  | nil => exact writes_pure
  | cons item others inductionHypothesis =>
    have one := answers item List.mem_cons_self
    have more := inductionHypothesis fun other inside =>
      answers other (List.mem_cons_of_mem _ inside)
    exact one.bind more

/-- What is checked item by item and never stops, never stops. -/
theorem firstOffence?_none {α : Type} (items : List α) :
    firstOffence? (fun _ => none) items = none := by
  induction items with
  | nil => rfl
  | cons first others inductionHypothesis =>
    rw [firstOffence?, inductionHypothesis]
    rfl

/-- Items that are written without a check are written in order. -/
theorem writes_each {α : Type} {items : List α} {print : α → Printing Unit} {piece : α → Piece}
    (writes : ∀ item ∈ items, (print item).Writes (piece item)) :
    (each items print).Writes (Piece.concat items piece) := by
  have checked : ∀ item ∈ items, (print item).Answers ((fun _ => none) item) (piece item) := writes
  have answers := answers_each checked
  rw [firstOffence?_none] at answers
  exact answers

/-- Directives are checked item by item. -/
theorem answers_checks {α : Type} (items : List α) (directives : α → List String)
    (owner : α → DirectiveOwner) :
    (each items fun item => rejectDirectives (directives item) (owner item)).Answers
      (firstOffence? (fun item => directiveOffence? (directives item) (owner item)) items)
      (Piece.text "") := by
  have nothing : Piece.concat items (fun _ => Piece.text "") = Piece.text "" := by
    induction items with
    | nil => rfl
    | cons first others inductionHypothesis =>
      rw [Piece.concat, inductionHypothesis, Piece.empty_append]
  have answers := answers_each fun item (_ : item ∈ items) =>
    answers_rejectDirectives (directives item) (owner item)
  rw [nothing] at answers
  exact answers

/-- A block stops where its body does, and writes its body one level deeper. -/
theorem Answers.block {body : Printing Unit} {offence? : Option Unsupported} {piece : Piece}
    (answers : body.Answers offence? piece) (opening closing : String) :
    (Printing.block opening closing body).Answers offence? (Piece.block opening closing piece) := by
  cases offence? with
  | some construct =>
    intro output
    have stopped := answers (output.push opening).indent
    simp [Printing.block, Bind.bind, StateT.bind, Except.bind, push, write, indent, stopped]
  | none =>
    intro output
    have inside := answers (output.push opening).indent
    have back : (((output.push opening).indent).push
        (piece (output.push opening).indent.position)).dedent? =
          some ((output.push opening).push (Piece.deeper piece (output.push opening).position)) :=
      rfl
    have written : Printing.block opening closing body output = .ok ((),
        ((output.push opening).push
          (Piece.deeper piece (output.push opening).position)).pushIndented closing) := by
      simp [Printing.block, Bind.bind, StateT.bind, Except.bind, push, write, indent, inside,
        dedent, back, pushIndented]
    rw [written]
    refine congrArg (fun written => Except.ok ((), written)) ?_
    exact (Output.push_append (output.push opening) (Piece.deeper piece)
      (Piece.indented closing)).trans
      (Output.push_append output (Piece.text opening) _)

/-- A block whose body is written without a check is written. -/
theorem Writes.block {body : Printing Unit} {piece : Piece} (writes : body.Writes piece)
    (opening closing : String) :
    (Printing.block opening closing body).Writes (Piece.block opening closing piece) := by
  have body : body.Answers none piece := writes
  exact body.block opening closing

/-- The outcome of rendering: an offence if there is one, else a text without the blanks
at its ends. -/
def outcome (offence? : Option Unsupported) (written : String) : Except PrintError String :=
  match offence? with
  | none => .ok (Text.strip written)
  | some construct => .error (.unsupported construct)

/-- What a printer answers is the outcome of rendering. -/
theorem Answers.render_eq {printing : Printing Unit} {offence? : Option Unsupported} {piece : Piece}
    (answers : printing.Answers offence? piece) (indentWidth maxWidth : Nat) :
    Printing.render printing indentWidth maxWidth =
      outcome offence? (piece (.start indentWidth maxWidth)) := by
  cases offence? with
  | some construct => simp [Printing.render, outcome, answers _]
  | none =>
    have start : (Output.empty indentWidth maxWidth).position = .start indentWidth maxWidth := rfl
    have text (written : String) : ((Output.empty indentWidth maxWidth).push written).finish =
        Text.strip written := by
      simp [Output.finish, Output.push, Output.empty]
    simp only [Printing.render, outcome, answers _, start, text]

end Printing

end GraphQLCanon.Layout
