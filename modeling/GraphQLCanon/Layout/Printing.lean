import GraphQLCanon.Unsupported
import GraphQLCanon.Layout.Output

/-!
# Printing

A printer writes into an output, or stops. It stops at a construct without a
canonical form, and would stop where it came back from a depth that it never
entered.
-/

namespace GraphQLCanon.Layout

/-- Why nothing was printed. -/
inductive PrintError
  | unsupported (construct : Unsupported)
  | unbalanced
  deriving DecidableEq, Repr

/-- What is said when the indentation would fall below the outermost level. -/
def unbalancedMessage : String := "Indentation decremented below zero"

/-- The message about an error of printing. -/
def PrintError.message : PrintError → String
  | unsupported construct => construct.message
  | unbalanced => unbalancedMessage

/-- Writes into an output and yields a value, or stops. -/
abbrev Printing (α : Type) : Type := StateT Output (Except PrintError) α

namespace Printing

/-- Changes the output. -/
def write (change : Output → Output) : Printing Unit := fun output => .ok ((), change output)

/-- Writes a text as it is. -/
def push (text : String) : Printing Unit := write (·.push text)

/-- Writes a text behind the current indentation. -/
def pushIndented (text : String) : Printing Unit := write (·.pushIndented text)

/-- Writes a description on a line of its own, or nothing. -/
def pushDescription (description : Option String) : Printing Unit :=
  write (·.pushDescription description)

/-- Writes an argument list in parentheses. -/
def pushArguments (arguments : List String) : Printing Unit := write (·.pushArguments arguments)

/-- Goes one level deeper. -/
def indent : Printing Unit := write Output.indent

/-- Comes one level back, and stops at the outermost level. -/
def dedent : Printing Unit := fun output =>
  match output.dedent? with
  | some dedented => .ok ((), dedented)
  | none => .error .unbalanced

/-- Stops at an unsupported construct. -/
def reject (construct : Unsupported) : Printing Unit := fun _ => .error (.unsupported construct)

/-- Stops at the first of the directives that an owner carries. -/
def rejectDirectives (directives : List String) (owner : DirectiveOwner) : Printing Unit :=
  match directives with
  | [] => pure ()
  | first :: _ => reject (.directive first owner)

/-- Writes something for each item, in order. -/
def each {α : Type} (items : List α) (print : α → Printing Unit) : Printing Unit :=
  match items with
  | [] => pure ()
  | item :: others => do
    print item
    each others print

/-- Writes a block one level deeper between an opening sign at the end of the
current line and a closing sign on a line of its own. -/
def block (opening closing : String) (body : Printing Unit) : Printing Unit := do
  push opening
  indent
  body
  dedent
  pushIndented closing

/-- Writes a block in braces, which ends its line. -/
def braces (body : Printing Unit) : Printing Unit := block " \x7b\n" "\x7d\n" body

/-- What a printer writes into an empty output, without the blanks at its
ends. -/
def render (printing : Printing Unit) (indentWidth maxWidth : Nat) : Except PrintError String :=
  match printing (Output.empty indentWidth maxWidth) with
  | .ok (_, output) => .ok output.finish
  | .error error => .error error

end Printing

end GraphQLCanon.Layout
