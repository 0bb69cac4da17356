import GraphQLCanon.Lexical.Scan
import GraphQLCanon.Grammar.SyntaxError
import GraphQLCanon.Grammar.Parser.Document

/-!
# Source documents

Reading a text as a sequence of definitions. A scan stops at the first lexical
fault, and the parser takes that for the end of the tokens. So a lexical fault is
the error whenever the parser looked at the end: it accepted the tokens before
the fault, or refused after it had come that far. Otherwise the refusal was first.
-/

namespace GraphQLCanon.Grammar

open GraphQLCanon.Lexical

/-- The definitions of a source text, in their order. -/
abbrev Document : Type := List Definition

/-- The offset in a text at which a part of it begins that reaches to its end. -/
def offsetOf (text suffix : List Char) : Nat := text.length - suffix.length

/-- The error of a lexical fault. -/
def SyntaxError.ofFault (text : List Char) (fault : Fault) : SyntaxError :=
  ⟨.lexical fault.cause, text, offsetOf text fault.source⟩

/-- The error of a refusal. It lies at the lexeme with as many tokens after it as
the reported token has, or at the end of the text. -/
def SyntaxError.ofRefusal (text : List Char) (lexemes : List Lexeme) (refusal : Refusal) :
    SyntaxError :=
  let behind := lexemes.drop (lexemes.length - refusal.reported.length)
  ⟨.grammatical refusal.cause, text, offsetOf text ((behind.head?.map Lexeme.source).getD [])⟩

/-- Reads a text as a document. -/
def Document.ofChars (text : List Char) : Except SyntaxError Document :=
  let scanned := scan text
  match Parser.document scanned.tokens, scanned.fault with
  | .ok (definitions, _), none => .ok definitions
  | .ok _, some fault => .error (.ofFault text fault)
  | .error refusal, none => .error (.ofRefusal text scanned.lexemes refusal)
  | .error refusal, some fault =>
    if refusal.furthest.isEmpty then .error (.ofFault text fault)
    else .error (.ofRefusal text scanned.lexemes refusal)

/-- Reads a text as a document. -/
def Document.ofText (text : String) : Except SyntaxError Document :=
  Document.ofChars text.toList

end GraphQLCanon.Grammar
