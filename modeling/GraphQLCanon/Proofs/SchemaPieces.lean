import GraphQLCanon.TypeSystem.Printing
import GraphQLCanon.Proofs.Pieces

/-!
# What is written of a schema document

For every part of a schema document, the first construct that stops the printing, in
the order in which the printers come to it, and the piece that is written where there
is none. The printers do exactly that.
-/

namespace GraphQLCanon.TypeSystem

open GraphQLCanon.Layout
open GraphQLCanon.Layout.Printing

/-- The piece of a root operation and its type. -/
def rootPiece (root : String × String) : Piece :=
  Piece.indented (root.1 ++ ": " ++ root.2 ++ "\n")

/-- The piece of a schema. -/
def Schema.piece (schema : Schema) : Piece :=
  Piece.description schema.description ++
    (Piece.indented "schema" ++ Piece.braces (Piece.concat schema.roots rootPiece))

/-- A schema stops at its directives only. -/
theorem Schema.answers (schema : Schema) :
    schema.print.Answers (directiveOffence? schema.directives .schema) schema.piece := by
  have roots : (each schema.roots fun root =>
      pushIndented (root.1 ++ ": " ++ root.2 ++ "\n")).Writes
        (Piece.concat schema.roots rootPiece) :=
    writes_each fun root _ => writes_pushIndented _
  exact ((writes_pushDescription schema.description).bind
    ((writes_pushIndented "schema").bind (Writes.block roots " \x7b\n" "\x7d\n"))).guarded
      schema.directives .schema

/-- The piece of the description, keyword and name of a type. -/
def Header.piece (header : Header) (keyword : String) : Piece :=
  Piece.description header.description ++ Piece.indented (keyword ++ " " ++ header.name)

/-- The first directive on a type. -/
def Header.offence? (header : Header) (keyword : String) : Option Unsupported :=
  directiveOffence? header.directives (.typeDefinition keyword header.name)

/-- The header of a type stops at its directives. -/
theorem Header.answers (header : Header) (keyword : String) :
    (header.print keyword).Answers (header.offence? keyword) (header.piece keyword) :=
  ((writes_pushDescription header.description).bind (writes_pushIndented _)).guarded
    header.directives (.typeDefinition keyword header.name)

/-- The piece of an argument on a line of its own, under its description. -/
def InputValue.piece (input : InputValue) : Piece :=
  Piece.description input.description ++ Piece.indented (input.write ++ ",\n")

/-- Arguments on a line each, under their descriptions, are written as their pieces. -/
theorem writes_printDescribedArguments (arguments : List InputValue) :
    (printDescribedArguments arguments).Writes
      (Piece.block "(\n" ")" (Piece.concat arguments InputValue.piece)) := by
  have lines : (each arguments fun argument => do
      pushDescription argument.description
      pushIndented (argument.write ++ ",\n")).Writes
        (Piece.concat arguments InputValue.piece) :=
    writes_each fun argument _ =>
      (writes_pushDescription argument.description).bind (writes_pushIndented _)
  exact lines.block "(\n" ")"

/-- The piece of the arguments of a field. -/
def Field.argumentsPiece (field : Field) : Piece :=
  if field.arguments.isEmpty then Piece.text ""
  else if field.arguments.all (·.description.isNone) then
    Piece.arguments (field.arguments.map InputValue.write)
  else Piece.block "(\n" ")" (Piece.concat field.arguments InputValue.piece)

/-- The first directive on an argument of a field. -/
def Field.argumentOffence? (field : Field) (owner : String) : Option Unsupported :=
  firstOffence? (fun argument =>
    directiveOffence? argument.directives (.argument owner field.name argument.name))
    field.arguments

/-- The arguments of a field stop at the first directive on one of them. -/
theorem Field.answers_printArguments (field : Field) (owner : String) :
    (field.printArguments owner).Answers (field.argumentOffence? owner) field.argumentsPiece := by
  unfold Field.printArguments Field.argumentOffence? Field.argumentsPiece
  cases listed : field.arguments with
  | nil => exact writes_pure
  | cons first others =>
    rw [← listed]
    have some? : field.arguments.isEmpty = false := by simp [listed]
    simp only [some?, Bool.false_eq_true, if_false]
    have arguments : Writes (if field.arguments.all (·.description.isNone) then
          pushArguments (field.arguments.map InputValue.write)
        else printDescribedArguments field.arguments)
        (if field.arguments.all (·.description.isNone) then
          Piece.arguments (field.arguments.map InputValue.write)
        else Piece.block "(\n" ")" (Piece.concat field.arguments InputValue.piece)) := by
      split
      · exact writes_pushArguments _
      · exact writes_printDescribedArguments field.arguments
    have checked := answers_checks field.arguments InputValue.directives fun argument =>
      .argument owner field.name argument.name
    have whole := checked.before arguments
    rw [Piece.empty_append] at whole
    exact whole

/-- The piece of a field of a type. -/
def Field.piece (field : Field) : Piece :=
  Piece.description field.description ++ (Piece.indented field.name ++
    (field.argumentsPiece ++ Piece.text (": " ++ field.type ++ "\n")))

/-- The first directive on a field or on one of its arguments. -/
def Field.offence? (owner : String) (field : Field) : Option Unsupported :=
  (directiveOffence? field.directives (.field owner field.name)).or (field.argumentOffence? owner)

/-- A field stops at the first directive on it or on one of its arguments. -/
theorem Field.answers (field : Field) (owner : String) :
    (field.print owner).Answers (field.offence? owner) field.piece := by
  have arguments := (field.answers_printArguments owner).before
    (writes_push (": " ++ field.type ++ "\n"))
  exact ((arguments.behind (writes_pushIndented field.name)).behind
    (writes_pushDescription field.description)).guarded field.directives (.field owner field.name)

/-- The piece of the parts of a definition in braces, or the end of its line. -/
def bodyPiece {α : Type} (parts : List α) (piece : α → Piece) : Piece :=
  if parts.isEmpty then Piece.text "\n" else Piece.braces (Piece.concat parts piece)

/-- The parts of a definition stop where the first of them does. -/
theorem answers_printBody {α : Type} {parts : List α} {print : α → Printing Unit}
    {offence? : α → Option Unsupported} {piece : α → Piece}
    (answers : ∀ part ∈ parts, (print part).Answers (offence? part) (piece part)) :
    (printBody parts print).Answers (firstOffence? offence? parts) (bodyPiece parts piece) := by
  unfold printBody bodyPiece
  cases parts with
  | nil => exact writes_push "\n"
  | cons first others => exact (answers_each answers).block " \x7b\n" "\x7d\n"

/-- The piece of implemented interfaces. -/
def interfacesPiece (interfaces : List String) : Piece :=
  if interfaces.isEmpty then Piece.text ""
  else Piece.text (" implements " ++ " & ".intercalate interfaces)

/-- The piece of an object type or interface. -/
def Composite.piece (composite : Composite) (keyword : String) : Piece :=
  composite.header.piece keyword ++ (interfacesPiece composite.interfaces ++
    bodyPiece composite.fields Field.piece)

/-- The first directive on an object type or interface or in it. -/
def Composite.offence? (composite : Composite) (keyword : String) : Option Unsupported :=
  (composite.header.offence? keyword).or
    (firstOffence? (Field.offence? composite.header.name) composite.fields)

/-- An object type or interface stops at the first directive on it or in it. -/
theorem Composite.answers (composite : Composite) (keyword : String) :
    (composite.print keyword).Answers (composite.offence? keyword) (composite.piece keyword) := by
  have body := answers_printBody fun field (_ : field ∈ composite.fields) =>
    field.answers composite.header.name
  have behind : Answers (do
      if composite.interfaces.isEmpty then pure ()
      else push (" implements " ++ " & ".intercalate composite.interfaces)
      printBody composite.fields fun field => field.print composite.header.name)
      (firstOffence? (Field.offence? composite.header.name) composite.fields)
      (interfacesPiece composite.interfaces ++ bodyPiece composite.fields Field.piece) := by
    unfold interfacesPiece
    cases composite.interfaces with
    | nil => exact body.behind writes_pure
    | cons first others => exact body.behind (writes_push _)
  exact (composite.header.answers keyword).bind behind

/-- The piece of a field of an input object. Behind a field of a described object there
is an empty line. -/
def InputObject.fieldPiece (input : InputObject) (field : InputValue) : Piece :=
  Piece.description field.description ++ (Piece.indented (field.write ++ "\n") ++
    if input.isDescribed then Piece.text "\n" else Piece.text "")

/-- The piece of an input object. -/
def InputObject.piece (input : InputObject) : Piece :=
  input.header.piece "input" ++ bodyPiece input.fields input.fieldPiece

/-- The first directive on a field of an input object. -/
def InputObject.fieldOffence? (input : InputObject) (field : InputValue) : Option Unsupported :=
  directiveOffence? field.directives (.inputField input.header.name field.name)

/-- The mixed descriptions of an input object, where descriptions are strict. -/
def InputObject.mixedOffence? (input : InputObject) (strict : Bool) : Option Unsupported :=
  if strict && input.isMixed then some (.mixedDescriptions input.header.name) else none

/-- The first offence of an input object: its directives, then mixed descriptions, then
the directives of its fields. -/
def InputObject.offence? (input : InputObject) (strict : Bool) : Option Unsupported :=
  (input.header.offence? "input").or ((input.mixedOffence? strict).or
    (firstOffence? input.fieldOffence? input.fields))

/-- A field of an input object stops at its directives. -/
theorem InputObject.answers_field (input : InputObject) (field : InputValue) :
    Answers (do
      rejectDirectives field.directives (.inputField input.header.name field.name)
      pushDescription field.description
      pushIndented (field.write ++ "\n")
      if input.isDescribed then push "\n")
      (input.fieldOffence? field) (input.fieldPiece field) := by
  have gap : Writes (if input.isDescribed then push "\n" else pure ())
      (if input.isDescribed then Piece.text "\n" else Piece.text "") := by
    split
    · exact writes_push "\n"
    · exact writes_pure
  exact ((writes_pushDescription field.description).bind
    ((writes_pushIndented (field.write ++ "\n")).bind gap)).guarded field.directives _

/-- An input object stops at its first offence. -/
theorem InputObject.answers (input : InputObject) (strict : Bool) :
    (input.print strict).Answers (input.offence? strict) input.piece := by
  have body := answers_printBody fun field (_ : field ∈ input.fields) => input.answers_field field
  have behind : Answers (do
      if strict && input.isMixed then reject (.mixedDescriptions input.header.name)
      printBody input.fields fun field => do
        rejectDirectives field.directives (.inputField input.header.name field.name)
        pushDescription field.description
        pushIndented (field.write ++ "\n")
        if input.isDescribed then push "\n")
      ((input.mixedOffence? strict).or (firstOffence? input.fieldOffence? input.fields))
      (bodyPiece input.fields input.fieldPiece) := by
    unfold InputObject.mixedOffence?
    by_cases mixed : (strict && input.isMixed) = true
    · rw [if_pos mixed, if_pos mixed]
      exact fun _ => rfl
    · rw [if_neg mixed, if_neg mixed]
      exact body
  exact (input.header.answers "input").bind behind

/-- The piece of an enum value. -/
def EnumValue.piece (value : EnumValue) : Piece :=
  Piece.description value.description ++ Piece.indented (value.name ++ "\n")

/-- The piece of an enum. -/
def Enum.piece (enum : Enum) : Piece :=
  enum.header.piece "enum" ++ bodyPiece enum.values EnumValue.piece

/-- The first directive on an enum or on one of its values. -/
def Enum.offence? (enum : Enum) : Option Unsupported :=
  (enum.header.offence? "enum").or (firstOffence? (fun value =>
    directiveOffence? value.directives (.enumValue enum.header.name value.name)) enum.values)

/-- An enum stops at the first directive on it or on one of its values. -/
theorem Enum.answers (enum : Enum) : enum.print.Answers enum.offence? enum.piece := by
  have body := answers_printBody fun value (_ : value ∈ enum.values) =>
    ((writes_pushDescription value.description).bind
      (writes_pushIndented (value.name ++ "\n"))).guarded value.directives
        (.enumValue enum.header.name value.name)
  exact (enum.header.answers "enum").bind body

/-- The piece of union members. -/
def membersPiece (members : List String) : Piece :=
  if members.isEmpty then Piece.text "" else Piece.text (" = " ++ " | ".intercalate members)

/-- The piece of a union. -/
def Union.piece (union : Union) : Piece :=
  union.header.piece "union" ++ (membersPiece union.members ++ Piece.text "\n")

/-- A union stops at its directives only. -/
theorem Union.answers (union : Union) :
    union.print.Answers (union.header.offence? "union") union.piece := by
  have behind : Writes (do
      if union.members.isEmpty then pure ()
      else push (" = " ++ " | ".intercalate union.members)
      push "\n") (membersPiece union.members ++ Piece.text "\n") := by
    unfold membersPiece
    cases union.members with
    | nil => exact writes_pure.bind (writes_push "\n")
    | cons first others => exact (writes_push _).bind (writes_push "\n")
  exact (union.header.answers "union").before behind

/-- The piece of a definition. -/
def Definition.piece : Definition → Piece
  | schema definition => definition.piece
  | object definition => definition.piece "type"
  | interface definition => definition.piece "interface"
  | inputObject definition => definition.piece
  | enum definition => definition.piece
  | scalar definition => definition.piece "scalar" ++ Piece.text "\n"
  | union definition => definition.piece
  | foreign _ => Piece.text ""

/-- The first offence of a definition. -/
def Definition.offence? (strict : Bool) : Definition → Option Unsupported
  | schema definition => directiveOffence? definition.directives .schema
  | object definition => definition.offence? "type"
  | interface definition => definition.offence? "interface"
  | inputObject definition => definition.offence? strict
  | enum definition => definition.offence?
  | scalar definition => definition.offence? "scalar"
  | union definition => definition.header.offence? "union"
  | foreign kind => some (.definitionKind kind)

/-- A definition stops at its first offence, and is written as its piece. -/
theorem Definition.answers (definition : Definition) (strict : Bool) :
    (definition.print strict).Answers (definition.offence? strict) definition.piece := by
  cases definition with
  | schema source => exact source.answers
  | object source => exact source.answers "type"
  | interface source => exact source.answers "interface"
  | inputObject source => exact source.answers strict
  | enum source => exact source.answers
  | scalar source => exact (source.answers "scalar").before (writes_push "\n")
  | union source => exact source.answers
  | foreign kind => exact fun _ => rfl

/-- The piece of a document: its definitions with a line feed behind each. -/
def Document.piece (document : Document) : Piece :=
  Piece.concat document.definitions fun definition => definition.piece ++ Piece.text "\n"

/-- The first offence of a document. -/
def Document.offence? (document : Document) (strict : Bool) : Option Unsupported :=
  firstOffence? (Definition.offence? strict) document.definitions

/-- A document stops at its first offence, and is written as its piece. -/
theorem Document.answers (document : Document) (strict : Bool) :
    (document.print strict).Answers (document.offence? strict) document.piece :=
  answers_each fun definition _ => (definition.answers strict).before (writes_push "\n")

/-- The outcome of rendering: the first offence in the canonical order, or the piece of
the canonical document without the blanks at its ends. -/
theorem Document.render_eq (document : Document) (indentWidth maxWidth : Nat) (strict : Bool) :
    document.render indentWidth maxWidth strict =
      outcome (document.canonical.offence? strict)
        (document.canonical.piece (.start indentWidth maxWidth)) :=
  (document.canonical.answers strict).render_eq indentWidth maxWidth

end GraphQLCanon.TypeSystem
