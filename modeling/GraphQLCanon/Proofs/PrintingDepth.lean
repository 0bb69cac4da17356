import GraphQLCanon.Formatting
import GraphQLCanon.Proofs.QueryPieces
import GraphQLCanon.Proofs.SchemaPieces

/-!
# The depth of printing

Every printer comes back from each level that it enters, and from no other one: it stops at a
construct only, and leaves the depth as it found it where it does not stop. This holds of every
part of every document and at every depth, so a document that is printed ends at the outermost
level, and its only failures are unsupported constructs.
-/

namespace GraphQLCanon

open GraphQLCanon.Layout

namespace Layout

/-- A printer that stops at a construct only, never because it came back from a level that it had
not entered, and that leaves the depth as it was where it does not stop. -/
def Printing.KeepsDepth (printing : Printing Unit) : Prop :=
  ∀ output, (∃ construct, printing output = .error (.unsupported construct)) ∨
    ∃ written, printing output = .ok ((), written) ∧ written.depth = output.depth

/-- A printer that writes a piece or stops at an offence keeps the depth: pieces only add
text. -/
theorem Printing.Answers.keepsDepth {printing : Printing Unit} {offence? : Option Unsupported}
    {piece : Piece} (answers : printing.Answers offence? piece) : printing.KeepsDepth := by
  intro output
  cases offence? with
  | some construct => exact .inl ⟨construct, answers output⟩
  | none => exact .inr ⟨output.push (piece output.position), answers output, rfl⟩

/-- A printer that writes a piece keeps the depth. -/
theorem Printing.Writes.keepsDepth {printing : Printing Unit} {piece : Piece}
    (writes : printing.Writes piece) : printing.KeepsDepth := by
  have answers : printing.Answers none piece := writes
  exact answers.keepsDepth

/-- Rendering with a printer that keeps the depth fails at a construct only, or ends at the
outermost level. -/
theorem Printing.KeepsDepth.render {printing : Printing Unit} (keeps : printing.KeepsDepth)
    (indentWidth maxWidth : Nat) :
    (∃ construct, printing.render indentWidth maxWidth = .error (.unsupported construct)) ∨
      ∃ written, printing (Output.empty indentWidth maxWidth) = .ok ((), written) ∧
        written.depth = 0 ∧ printing.render indentWidth maxWidth = .ok written.finish := by
  unfold Printing.render
  rcases keeps (Output.empty indentWidth maxWidth) with ⟨construct, stopped⟩ |
    ⟨written, printed, outermost⟩
  · exact .inl ⟨construct, by rw [stopped]⟩
  · exact .inr ⟨written, printed, outermost, by rw [printed]⟩

end Layout

namespace Executable

/-- A part of a query document with a printer of its own. -/
inductive Part
  | document (whole : Document)
  | definition (one : Definition)
  | operation (source : Operation)
  | variableList (source : Operation)
  | fragment (source : Fragment)
  | selections (all : List Selection)
  | selection (one : Selection)
  | inlineHeader (typeCondition : Option String) (directives : List String)
  | field (head : Field)

/-- Writes a part of a query document. -/
def Part.print : Part → Printing Unit
  | document whole => whole.print
  | definition one => one.print
  | operation source => source.print
  | variableList source => source.printVariables
  | fragment source => source.print
  | selections all => printSelections all
  | selection one => one.print
  | inlineHeader typeCondition directives => printInlineHeader typeCondition directives
  | field head => head.print

/-- Every part of a query document keeps the depth. -/
theorem Part.keepsDepth (part : Part) : part.print.KeepsDepth := by
  cases part with
  | document whole => exact whole.answers.keepsDepth
  | definition one => exact one.answers.keepsDepth
  | operation source => exact source.answers.keepsDepth
  | variableList source => exact source.answers_printVariables.keepsDepth
  | fragment source => exact source.answers.keepsDepth
  | selections all => exact (answers_printSelections all).keepsDepth
  | selection one => exact one.answers.keepsDepth
  | inlineHeader typeCondition directives =>
    exact (answers_printInlineHeader typeCondition directives).keepsDepth
  | field head => exact head.answers.keepsDepth

end Executable

namespace TypeSystem

/-- A part of a schema document with a printer of its own, under the keyword or the owner that it
is printed with. -/
inductive Part
  | document (whole : Document)
  | definition (one : Definition)
  | schema (source : Schema)
  | composite (source : Composite) (keyword : String)
  | inputObject (source : InputObject)
  | enum (source : Enum)
  | union (source : Union)
  | header (source : Header) (keyword : String)
  | fields (all : List Field) (owner : String)
  | field (one : Field) (owner : String)
  | argumentList (host : Field) (owner : String)
  | describedArguments (all : List InputValue)

/-- Writes a part of a schema document. -/
def Part.print (strict : Bool) : Part → Printing Unit
  | document whole => whole.print strict
  | definition one => one.print strict
  | schema source => source.print
  | composite source keyword => source.print keyword
  | inputObject source => source.print strict
  | enum source => source.print
  | union source => source.print
  | header source keyword => source.print keyword
  | fields all owner => printBody all fun one => one.print owner
  | field one owner => one.print owner
  | argumentList host owner => host.printArguments owner
  | describedArguments all => printDescribedArguments all

/-- Every part of a schema document keeps the depth. -/
theorem Part.keepsDepth (part : Part) (strict : Bool) : (part.print strict).KeepsDepth := by
  cases part with
  | document whole => exact (whole.answers strict).keepsDepth
  | definition one => exact (one.answers strict).keepsDepth
  | schema source => exact source.answers.keepsDepth
  | composite source keyword => exact (source.answers keyword).keepsDepth
  | inputObject source => exact (source.answers strict).keepsDepth
  | enum source => exact source.answers.keepsDepth
  | union source => exact source.answers.keepsDepth
  | header source keyword => exact (source.answers keyword).keepsDepth
  | fields all owner =>
    exact (answers_printBody fun one (_ : one ∈ all) => one.answers owner).keepsDepth
  | field one owner => exact (one.answers owner).keepsDepth
  | argumentList host owner => exact (host.answers_printArguments owner).keepsDepth
  | describedArguments all => exact (writes_printDescribedArguments all).keepsDepth

end TypeSystem

/-- Coming back never fails where documents are printed. Every printer of a part stops at a
construct only and leaves the depth as it was where it does not stop, at whatever depth it begins.
Behind the lines of an argument list there is always the level that was entered before them, and
the list leaves the depth as it was, whichever layout it takes. So rendering a document stops at
an unsupported construct or ends at the outermost level, and fails in no other way. -/
theorem printing_keepsDepth :
    (∀ part : Executable.Part, part.print.KeepsDepth) ∧
      (∀ (part : TypeSystem.Part) (strict : Bool), (part.print strict).KeepsDepth) ∧
      (∀ (output : Output) (arguments : List String),
        (output.pushDeeperLines arguments).dedent? = some (output.pushArgumentLines arguments) ∧
          (output.pushArguments arguments).depth = output.depth) ∧
      (∀ (document : Executable.Document) (options : Options),
        (∃ construct, renderExecutable document options = .error (.unsupported construct)) ∨
          ∃ written, document.canonical.print
              (Output.empty options.indentWidth options.maxWidth) = .ok ((), written) ∧
            written.depth = 0 ∧ renderExecutable document options = .ok written.finish) ∧
      ∀ (document : TypeSystem.Document) (options : Options),
        (∃ construct, renderTypeSystem document options = .error (.unsupported construct)) ∨
          ∃ written, document.canonical.print options.strictDescriptions
              (Output.empty options.indentWidth options.maxWidth) = .ok ((), written) ∧
            written.depth = 0 ∧ renderTypeSystem document options = .ok written.finish := by
  refine ⟨Executable.Part.keepsDepth, TypeSystem.Part.keepsDepth, fun output arguments => ?_,
    fun document options => ?_, fun document options => ?_⟩
  · have back := output.dedent?_pushDeeperLines arguments
    rw [← output.pushArgumentLines_eq] at back
    refine ⟨back, ?_⟩
    rw [output.pushArguments_eq]
    rfl
  · exact (Executable.Part.document document.canonical).keepsDepth.render
      options.indentWidth options.maxWidth
  · exact ((TypeSystem.Part.document document.canonical).keepsDepth
      options.strictDescriptions).render options.indentWidth options.maxWidth

end GraphQLCanon
