import GraphQLCanon.Formatting
import GraphQLCanon.Comparison.Colour
import GraphQLCanon.CommandLine.Arguments

/-!
# Runs of the command line

A run formats its files one after another and prints the result, writes it back,
or compares it with the file. It ends at the first file that has no canonical
form; what was printed and written before remains. A run of comparisons fails when
a file differs from its canonical form.
-/

namespace GraphQLCanon.CommandLine

/-- What a run has done so far: the files as they are now, what was printed on
the two streams, and how many files differ from their canonical form. -/
structure Progress where
  store : Store
  output : String
  errors : String
  unformatted : Nat
  deriving DecidableEq, Repr

/-- The result of a run. -/
structure Outcome where
  status : Nat
  output : String
  errors : String
  store : Store
  deriving DecidableEq, Repr

/-- A line as it reaches a stream: escape sequences are dropped where colour is
off. -/
def echoed (colour : Bool) (text : String) : String :=
  (if colour then text else String.ofList (Comparison.withoutEscapes text.toList)) ++ "\n"

/-- Prints a line. -/
def Progress.say (progress : Progress) (colour : Bool) (text : String) : Progress :=
  { progress with output := progress.output ++ echoed colour text }

/-- Prints a line on the stream of errors. -/
def Progress.warn (progress : Progress) (colour : Bool) (text : String) : Progress :=
  { progress with errors := progress.errors ++ echoed colour text }

/-- The text of a file that is formatted: its breaks are unified and the blanks at
its ends removed. -/
def formattedPart (content : String) : String :=
  Text.strip (String.ofList (Text.unifyBreaks content.toList))

/-- The printed lines of the comparison of a text with its canonical form. -/
def comparisonLines (title text formatted : String) : List String :=
  (Comparison.unified title (title ++ " (formatted)") (Text.displayLines text)
    (Text.displayLines formatted)).map fun line => Comparison.paintPrinted line.write

/-- The content of the file that a path leads to. Only paths of files reach this
point. -/
def Store.content (store : Store) (path : String) : String :=
  match store.entry path with
  | .file content => content
  | _ => ""

/-- Announces a file and how it is read. -/
def Progress.announce (progress : Progress) (request : Request) (colour : Bool)
    (title text : String) : Progress :=
  if request.verbose then
    let kind := if isSchema text then "schema" else "query"
    progress.warn colour ("Formatting " ++ title ++ " as " ++ kind ++ "...")
  else progress

/-- Writes the canonical form back to its file. -/
def Progress.writeBack (progress : Progress) (request : Request) (colour : Bool)
    (path formatted : String) : Progress :=
  let written := { progress with store := progress.store.write path (formatted ++ "\n") }
  if request.verbose then written.warn colour ("  Wrote " ++ normalPath path) else written

/-- Compares a text with its canonical form, and counts it if they differ. -/
def Progress.compare (progress : Progress) (colour : Bool) (title text formatted : String) :
    Progress :=
  if formatted = text then progress
  else
    let shown := (comparisonLines title text formatted).foldl
      (fun current line => current.say colour line) progress
    { shown with unformatted := shown.unformatted + 1 }

/-- Ends a visit to a file: its canonical form is written back, compared or printed, and a failure
is told. -/
def Progress.conclude (progress : Progress) (request : Request) (colour : Bool)
    (path title text : String) : Except FormatError String → Except Progress Progress
  | .error error => .error (progress.warn colour ("Error: " ++ title ++ ": " ++ error.message))
  | .ok formatted =>
    .ok (if request.write then progress.writeBack request colour path formatted
      else if request.check then progress.compare colour title text formatted
      else progress.say colour formatted)

/-- Formats one file. A failure carries what was done before it, with its message
already printed. -/
def Progress.visit (progress : Progress) (request : Request) (colour : Bool) (path : String) :
    Except Progress Progress :=
  let title := normalPath path
  let text := formattedPart (progress.store.content path)
  let announced := progress.announce request colour title text
  announced.conclude request colour path title text (formatText text request.options)

/-- Formats files one after another, up to the first failure. -/
def Progress.visitAll (progress : Progress) (request : Request) (colour : Bool) :
    List String → Except Progress Progress
  | [] => .ok progress
  | path :: others => do
    let visited ← progress.visit request colour path
    visited.visitAll request colour others

/-- The result of a run that got so far. -/
def Progress.outcome (progress : Progress) (status : Nat) : Outcome :=
  ⟨status, progress.output, progress.errors, progress.store⟩

/-- Does what a request asks for. -/
def Request.run (request : Request) (store : Store) (colour : Bool) : Outcome :=
  match Progress.visitAll ⟨store, "", "", 0⟩ request colour request.files with
  | .error progress => progress.outcome 1
  | .ok progress =>
    if progress.unformatted = 0 then progress.outcome 0
    else
      (progress.warn colour
        ("\n" ++ toString progress.unformatted ++ " file(s) would be reformatted.")).outcome 1

/-- Runs the program on its arguments. -/
def run (store : Store) (arguments : List String) (colour : Bool) : Outcome :=
  match Task.ofArguments store arguments with
  | .error error => ⟨2, "", echoed colour error.write, store⟩
  | .ok (.show page) => ⟨0, echoed colour page.write, "", store⟩
  | .ok (.format request) => request.run store colour

end GraphQLCanon.CommandLine
