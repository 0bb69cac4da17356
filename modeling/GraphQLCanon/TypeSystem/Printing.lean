import GraphQLCanon.Layout.Printing
import GraphQLCanon.TypeSystem.Canonical

/-!
# Printing type-system documents

The printers write a document in the order in which it is given; what is printed
is the canonical order. The first directive met stops the printing: at a
definition before its parts, at a field before its arguments, and at any argument
of a field before the first one is written. Arguments stand on a line each, under
their descriptions, as soon as one of them has a description. The fields of an
input object are set apart by empty lines as soon as one has a description; where
descriptions are strict, all or none must have one.
-/

namespace GraphQLCanon.TypeSystem

open GraphQLCanon.Layout

/-- Writes a schema and its root operations. -/
def Schema.print (schema : Schema) : Printing Unit := do
  Printing.rejectDirectives schema.directives .schema
  Printing.pushDescription schema.description
  Printing.pushIndented "schema"
  Printing.braces <| Printing.each schema.roots fun (operation, type) =>
    Printing.pushIndented (operation ++ ": " ++ type ++ "\n")

/-- Writes the description, keyword and name of a type. -/
def Header.print (header : Header) (keyword : String) : Printing Unit := do
  Printing.rejectDirectives header.directives (.typeDefinition keyword header.name)
  Printing.pushDescription header.description
  Printing.pushIndented (keyword ++ " " ++ header.name)

/-- Writes arguments on a line each, under their descriptions. -/
def printDescribedArguments (arguments : List InputValue) : Printing Unit :=
  Printing.block "(\n" ")" <| Printing.each arguments fun argument => do
    Printing.pushDescription argument.description
    Printing.pushIndented (argument.write ++ ",\n")

/-- Writes the arguments of a field, if it has any. -/
def Field.printArguments (field : Field) (owner : String) : Printing Unit :=
  if field.arguments.isEmpty then pure ()
  else do
    Printing.each field.arguments fun argument =>
      Printing.rejectDirectives argument.directives (.argument owner field.name argument.name)
    if field.arguments.all (·.description.isNone) then
      Printing.pushArguments (field.arguments.map InputValue.write)
    else printDescribedArguments field.arguments

/-- Writes a field of a type. -/
def Field.print (field : Field) (owner : String) : Printing Unit := do
  Printing.rejectDirectives field.directives (.field owner field.name)
  Printing.pushDescription field.description
  Printing.pushIndented field.name
  field.printArguments owner
  Printing.push (": " ++ field.type ++ "\n")

/-- Writes the parts of a definition in braces, or ends the line if there are
none. -/
def printBody {α : Type} (parts : List α) (print : α → Printing Unit) : Printing Unit :=
  if parts.isEmpty then Printing.push "\n" else Printing.braces (Printing.each parts print)

/-- Writes an object type or interface. -/
def Composite.print (composite : Composite) (keyword : String) : Printing Unit := do
  composite.header.print keyword
  if composite.interfaces.isEmpty then pure ()
  else Printing.push (" implements " ++ " & ".intercalate composite.interfaces)
  printBody composite.fields fun field => field.print composite.header.name

/-- True when some field of an input object has a description. -/
def InputObject.isDescribed (input : InputObject) : Bool :=
  input.fields.any (·.description.isSome)

/-- True when some field of an input object has a description and some has
none. -/
def InputObject.isMixed (input : InputObject) : Bool :=
  input.isDescribed && input.fields.any (·.description.isNone)

/-- Writes an input object. Fields are set apart as soon as one is described. -/
def InputObject.print (input : InputObject) (strict : Bool) : Printing Unit := do
  input.header.print "input"
  if strict && input.isMixed then Printing.reject (.mixedDescriptions input.header.name)
  printBody input.fields fun field => do
    Printing.rejectDirectives field.directives (.inputField input.header.name field.name)
    Printing.pushDescription field.description
    Printing.pushIndented (field.write ++ "\n")
    if input.isDescribed then Printing.push "\n"

/-- Writes an enum. -/
def Enum.print (enum : Enum) : Printing Unit := do
  enum.header.print "enum"
  printBody enum.values fun value => do
    Printing.rejectDirectives value.directives (.enumValue enum.header.name value.name)
    Printing.pushDescription value.description
    Printing.pushIndented (value.name ++ "\n")

/-- Writes a union. -/
def Union.print (union : Union) : Printing Unit := do
  union.header.print "union"
  if union.members.isEmpty then pure ()
  else Printing.push (" = " ++ " | ".intercalate union.members)
  Printing.push "\n"

/-- Writes a definition. -/
def Definition.print (strict : Bool) : Definition → Printing Unit
  | schema definition => definition.print
  | object definition => definition.print "type"
  | interface definition => definition.print "interface"
  | inputObject definition => definition.print strict
  | enum definition => definition.print
  | scalar definition => do
    definition.print "scalar"
    Printing.push "\n"
  | union definition => definition.print
  | foreign kind => Printing.reject (.definitionKind kind)

/-- Writes definitions with an empty line behind each. -/
def Document.print (document : Document) (strict : Bool) : Printing Unit :=
  Printing.each document.definitions fun definition => do
    definition.print strict
    Printing.push "\n"

/-- The canonical form of a document. -/
def Document.render (document : Document) (indentWidth maxWidth : Nat) (strict : Bool) :
    Except PrintError String :=
  Printing.render (document.canonical.print strict) indentWidth maxWidth

end GraphQLCanon.TypeSystem
