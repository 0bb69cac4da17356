import GraphQLCanon.Grammar.Parser.TypeSystem

/-!
# Parsing documents

A document is one definition after another, at least one. A definition is told by
the word in front or, behind a description, by the word after it, which is looked
at before the description is passed.
-/

namespace GraphQLCanon.Grammar.Parser

open GraphQLCanon.Lexical

/-- The definition that a keyword opens, the word `extend` apart. -/
def definitionOf? (keyword : String) : Option (Parser Definition) :=
  match keyword with
  | "query" | "mutation" | "subscription" => some (.operation <$> operationDefinition)
  | "fragment" => some (.fragment <$> fragmentDefinition)
  | "directive" => some (.directive <$> directiveDefinition)
  | _ =>
    (bodyOf? rootOperations keyword).map fun body => .typeSystem <$> typeSystemDefinition body

/-- A definition behind its description, which is still in front. Refusals count
the token behind the description as looked at. -/
def describedDefinition (start behind : List Token) : Parser Definition :=
  match behind.head? with
  | some (.punctuator .openBrace) => fun _ => .error ⟨.describedShorthand, start, behind⟩
  | some (.name keyword) =>
    match definitionOf? keyword with
    | some definition => definition
    | none => fun _ => .error ⟨.misplacedDescription, start, behind⟩
  | found => fun _ => .error ⟨.unexpected found, behind, behind⟩

/-- A definition of any kind. -/
def definition : Parser Definition := do
  let tokens ← get
  match tokens with
  | .punctuator .openBrace :: _ => return .shorthand (← selectionSet nestingLimit)
  | .string _ :: behind | .blockString _ :: behind => describedDefinition tokens behind
  | .name "extend" :: _ =>
    advance
    return .extension (← extension)
  | .name keyword :: _ =>
    match definitionOf? keyword with
    | some parser => parser
    | none => refuse .unexpected
  | _ => refuse .unexpected

/-- Definitions up to the end of the tokens, at least one, and at most as many as
a bound allows after the first. -/
def definitions : Nat → Parser (List Definition)
  | 0 => do
    let only ← definition
    return [only]
  | fuel + 1 => do
    let first ← definition
    match ← peek with
    | none => return [first]
    | some _ => return first :: (← definitions fuel)

/-- A whole document. -/
def document : Parser (List Definition) := do
  definitions (← bound)

end GraphQLCanon.Grammar.Parser
