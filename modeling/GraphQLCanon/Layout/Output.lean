import GraphQLCanon.Text.Blank
import GraphQLCanon.Lexical.QuotedString

/-!
# Output

The text written so far, the depth of indentation, and the length of the last
line, which decides whether an argument list still fits. Widths may be any
integer: a negative indentation writes no spaces, and nothing fits a negative
width.
-/

namespace GraphQLCanon.Layout

/-- The length of the last line after some characters, from its length before
them: a line feed begins a line, and every other character lengthens it. -/
def lineLengthAfter (length : Nat) : List Char → Nat
  | [] => length
  | character :: rest => lineLengthAfter (if character = '\n' then 0 else length + 1) rest

/-- A text that grows at its end, with the counters of its layout. -/
structure Output where
  /-- Spaces per level of depth. -/
  indentWidth : Int
  /-- The greatest length of a line that ends with an argument list. -/
  maxWidth : Int
  /-- Levels of indentation. -/
  depth : Nat
  /-- All that was written. -/
  text : String
  /-- The length of the last line of the text. -/
  lineLength : Nat
  deriving DecidableEq, Repr

namespace Output

/-- An output without text. -/
def empty (indentWidth maxWidth : Int) : Output :=
  ⟨indentWidth, maxWidth, 0, "", 0⟩

/-- The indentation of the current depth. -/
def spaces (output : Output) : String :=
  String.ofList (List.replicate (output.indentWidth * output.depth).toNat ' ')

/-- Writes a text as it is. -/
def push (output : Output) (text : String) : Output :=
  { output with
    text := output.text ++ text
    lineLength := lineLengthAfter output.lineLength text.toList }

/-- Writes a text behind the current indentation. -/
def pushIndented (output : Output) (text : String) : Output :=
  output.push (output.spaces ++ text)

/-- Goes one level deeper. -/
def indent (output : Output) : Output :=
  { output with depth := output.depth + 1 }

/-- Comes one level back; there is nothing above the outermost level. -/
def dedent? (output : Output) : Option Output :=
  match output.depth with
  | 0 => none
  | depth + 1 => some { output with depth := depth }

/-- Writes a description as a quoted string on a line of its own, or nothing. -/
def pushDescription (output : Output) : Option String → Output
  | none => output
  | some description => output.pushIndented (Lexical.QuotedString.write description ++ "\n")

/-- Goes one level deeper and writes arguments on a line each, with a comma behind
each. -/
def pushDeeperLines (output : Output) (arguments : List String) : Output :=
  arguments.foldl (fun current argument => current.pushIndented (argument ++ ",\n")) output.indent

/-- Writes arguments on a line each, one level deeper and with a comma behind
each, and comes back. -/
def pushArgumentLines (output : Output) (arguments : List String) : Output :=
  let inner := output.pushDeeperLines arguments
  inner.dedent?.getD inner

/-- True when a line of some length is within a width. -/
def fits (length : Nat) (width : Int) : Bool := decide ((length : Int) ≤ width)

/-- Writes an argument list in parentheses: on the current line if it fits the
greatest width there, else with a line for each argument. -/
def pushArguments (output : Output) (arguments : List String) : Output :=
  let opened := output.push "("
  let inline := ", ".intercalate arguments ++ ")"
  bif fits (opened.lineLength + inline.length) opened.maxWidth then opened.push inline
  else ((opened.push "\n").pushArgumentLines arguments).pushIndented ")"

/-- The text without the blanks at its ends. -/
def finish (output : Output) : String := Text.strip output.text

end Output

end GraphQLCanon.Layout
