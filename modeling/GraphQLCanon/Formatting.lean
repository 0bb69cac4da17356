import GraphQLCanon.Grammar.Document
import GraphQLCanon.Options.Basic
import GraphQLCanon.Executable.OfGrammar
import GraphQLCanon.Executable.Printing
import GraphQLCanon.TypeSystem.OfGrammar
import GraphQLCanon.TypeSystem.Printing

/-!
# Formatting

A text is read as a source document, taken as an executable or a type-system
document, put in canonical order and written out. The stages refuse in this
order: a syntax error first, then a definition of the wrong kind, then what the
printers meet. A text is formatted as a schema when one of its lines begins with
the word that opens a schema.
-/

namespace GraphQLCanon

open GraphQLCanon.Layout (PrintError)

/-- Why a text has no canonical form. -/
inductive FormatError
  | badSyntax (error : Grammar.SyntaxError)
  | unprintable (error : PrintError)
  deriving DecidableEq, Repr

/-- The message about a text without canonical form. -/
def FormatError.message : FormatError → String
  | badSyntax error => error.message
  | unprintable error => error.message

/-- Reads a text as an executable document. -/
def readExecutable (text : String) : Except FormatError Executable.Document :=
  match Grammar.Document.ofText text with
  | .error error => .error (.badSyntax error)
  | .ok definitions =>
    (Executable.Document.ofGrammar definitions).mapError fun construct =>
      .unprintable (.unsupported construct)

/-- Reads a text as a type-system document. -/
def readTypeSystem (text : String) : Except FormatError TypeSystem.Document :=
  match Grammar.Document.ofText text with
  | .error error => .error (.badSyntax error)
  | .ok definitions =>
    (TypeSystem.Document.ofGrammar definitions).mapError fun construct =>
      .unprintable (.unsupported construct)

/-- The canonical form of an executable document under some options. -/
def renderExecutable (document : Executable.Document) (options : Options) :
    Except PrintError String :=
  document.render options.indentWidth options.maxWidth

/-- The canonical form of a type-system document under some options. -/
def renderTypeSystem (document : TypeSystem.Document) (options : Options) :
    Except PrintError String :=
  document.render options.indentWidth options.maxWidth options.strictDescriptions

/-- The canonical form of a query text. -/
def formatQuery (text : String) (options : Options) : Except FormatError String := do
  let document ← readExecutable text
  (renderExecutable document options).mapError .unprintable

/-- The canonical form of a schema text. -/
def formatSchema (text : String) (options : Options) : Except FormatError String := do
  let document ← readTypeSystem text
  (renderTypeSystem document options).mapError .unprintable

/-- True when the word `schema` begins some line, as a word or as the start of a
longer one. Only a line feed begins a line here. -/
def isSchemaChars (characters : List Char) : Bool :=
  (Text.splitLines (· == '\n') characters).any ("schema".toList.isPrefixOf ·)

/-- True of the texts that are formatted as schemas. -/
def isSchema (text : String) : Bool := isSchemaChars text.toList

/-- The canonical form of a text, as a schema or as a query by its lines. -/
def formatText (text : String) (options : Options) : Except FormatError String :=
  bif isSchema text then formatSchema text options else formatQuery text options

end GraphQLCanon
