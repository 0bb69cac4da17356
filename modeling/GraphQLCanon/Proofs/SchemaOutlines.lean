import GraphQLCanon.Proofs.Outlines
import GraphQLCanon.Proofs.WrittenSchemas

/-!
# Outlines of schemas

The outline of every part of a type-system document at a depth. The arguments of a field
are an argument list unless one of them has a description: then each stands on a line of
its own under its description, whatever the widths are. The pieces of definitions follow
their outlines, and the argument lists of the outline of a canonical form are those of the
document: each field with arguments and none of them described once, with its own name and
its arguments in order of their names.
-/

namespace GraphQLCanon.TypeSystem

open GraphQLCanon.Layout
open GraphQLCanon.Layout.Piece (descriptionRows)
open GraphQLCanon.Lexical
open GraphQLCanon.Grammar (AllLegible allLegible_cons allLegible_append allLegible_enclosedTokens)

/-- The outline of an argument on a line of its own, under its description. -/
def InputValue.rows (depth : Nat) (input : InputValue) : List Row :=
  descriptionRows depth input.description ++ [.line depth (input.write ++ ",")]

/-- True when a field has arguments and none of them has a description. -/
def Field.isListed (field : Field) : Bool :=
  !field.arguments.isEmpty && field.arguments.all (·.description.isNone)

/-- The outline of a field under its description, with what ends its last line. -/
def Field.argumentRows (field : Field) (depth : Nat) (ending : String) : List Row :=
  if field.arguments.isEmpty then [.line depth (field.name ++ ending)]
  else if field.arguments.all (·.description.isNone) then
    [.listed ⟨depth, field.name, field.arguments.map InputValue.write⟩ ending]
  else .line depth (field.name ++ "(") ::
    (field.arguments.flatMap (InputValue.rows (depth + 1)) ++ [.line depth (")" ++ ending)])

/-- The outline of a field. -/
def Field.rows (depth : Nat) (field : Field) : List Row :=
  descriptionRows depth field.description ++ field.argumentRows depth (": " ++ field.type)

/-- The outline of the description, keyword and name of a type, with what ends the line. -/
def Header.rows (header : Header) (keyword : String) (depth : Nat) (ending : String) : List Row :=
  descriptionRows depth header.description ++
    [.line depth (keyword ++ " " ++ header.name ++ ending)]

/-- The outline of a definition with parts in braces, if there are any. -/
def bodyRows {α : Type} (front : String → List Row) (depth : Nat) (parts : List α)
    (rows : Nat → α → List Row) : List Row :=
  if parts.isEmpty then front ""
  else front " \x7b" ++ (parts.flatMap (rows (depth + 1)) ++ [.line depth "\x7d"])

/-- The outline of a schema. -/
def Schema.rows (schema : Schema) (depth : Nat) : List Row :=
  descriptionRows depth schema.description ++ [.line depth ("schema" ++ " \x7b")] ++
    (schema.roots.flatMap (fun root => [.line (depth + 1) (root.1 ++ ": " ++ root.2)]) ++
      [.line depth "\x7d"])

/-- The interfaces of a type behind their keyword, if there are any. -/
def interfacesText (interfaces : List String) : String :=
  if interfaces.isEmpty then "" else " implements " ++ " & ".intercalate interfaces

/-- The outline of an object type or interface. -/
def Composite.rows (composite : Composite) (keyword : String) (depth : Nat) : List Row :=
  bodyRows (fun ending =>
    composite.header.rows keyword depth (interfacesText composite.interfaces ++ ending))
    depth composite.fields Field.rows

/-- The outline of a field of an input object: under those of a described object stands an
empty line. -/
def InputObject.fieldRows (input : InputObject) (depth : Nat) (field : InputValue) : List Row :=
  descriptionRows depth field.description ++
    (.line depth field.write :: if input.isDescribed then [.gap] else [])

/-- The outline of an input object. -/
def InputObject.rows (input : InputObject) (depth : Nat) : List Row :=
  bodyRows (input.header.rows "input" depth) depth input.fields input.fieldRows

/-- The outline of an enum value. -/
def EnumValue.rows (depth : Nat) (value : EnumValue) : List Row :=
  descriptionRows depth value.description ++ [.line depth value.name]

/-- The outline of an enum. -/
def Enum.rows (enum : Enum) (depth : Nat) : List Row :=
  bodyRows (enum.header.rows "enum" depth) depth enum.values EnumValue.rows

/-- The members of a union behind their sign, if there are any. -/
def membersText (members : List String) : String :=
  if members.isEmpty then "" else " = " ++ " | ".intercalate members

/-- The outline of a definition. -/
def Definition.rows : Definition → Nat → List Row
  | schema definition, depth => definition.rows depth
  | object definition, depth => definition.rows "type" depth
  | interface definition, depth => definition.rows "interface" depth
  | inputObject definition, depth => definition.rows depth
  | enum definition, depth => definition.rows depth
  | scalar definition, depth => definition.rows "scalar" depth ""
  | union definition, depth =>
    definition.header.rows "union" depth (membersText definition.members)
  | foreign _, _ => []

/-- The outline of a document: its definitions with an empty line between each two. -/
def Document.rows (document : Document) : List Row :=
  [Row.gap].intercalate (document.definitions.map fun definition => definition.rows 0)

section Following

/-- An argument on a line of its own follows its outline. -/
theorem follows_inputValue (input : InputValue) :
    input.piece.Follows (InputValue.rows · input) := by
  have line := Piece.follows_line (input.write ++ ",")
  rw [String.append_assoc] at line
  exact (Piece.follows_description input.description).append line

/-- A field under its description begins with its name and its arguments. -/
theorem heads_field {field : Field} (unbroken : '\n' ∉ field.name.toList) :
    (Piece.indented field.name ++ field.argumentsPiece).Heads field.argumentRows := by
  unfold Field.argumentsPiece Field.argumentRows
  split
  · rw [Piece.append_empty]
    exact Piece.heads_indented field.name
  · split
    · exact Piece.heads_arguments unbroken _
    · exact (Piece.heads_indented field.name).block
        (Piece.follows_concat fun input _ => follows_inputValue input) "(" ")"

/-- A field follows its outline. -/
theorem follows_field {field : Field} (unbroken : '\n' ∉ field.name.toList) :
    field.piece.Follows (Field.rows · field) := by
  have line := heads_field unbroken (": " ++ field.type)
  rw [Piece.append_assoc] at line
  exact (Piece.follows_description field.description).append line

/-- The header of a type begins a line under its description. -/
theorem heads_header (header : Header) (keyword : String) :
    (header.piece keyword).Heads (header.rows keyword) :=
  (Piece.follows_description header.description).heads (Piece.heads_indented _)

/-- Parts of a definition behind its header follow their outlines. -/
theorem Heads.body {α : Type} {piece : Piece} {front : Nat → String → List Row}
    (heads : piece.Heads front) {parts : List α} {partPiece : α → Piece}
    {rows : Nat → α → List Row} (each : ∀ part ∈ parts, (partPiece part).Follows (rows · part)) :
    (piece ++ bodyPiece parts partPiece).Follows fun depth =>
      bodyRows (front depth) depth parts rows := by
  unfold bodyPiece bodyRows
  split
  · exact heads.line
  · exact heads.braces (Piece.follows_concat each)

/-- An object type or interface follows its outline. -/
theorem follows_composite {composite : Composite} (keyword : String)
    (unbroken : ∀ field ∈ composite.fields, '\n' ∉ field.name.toList) :
    (composite.piece keyword).Follows (composite.rows keyword) := by
  have interfaces_eq : interfacesPiece composite.interfaces =
      Piece.text (interfacesText composite.interfaces) := by
    unfold interfacesPiece interfacesText
    split <;> rfl
  have front := (heads_header composite.header keyword).append_text
    (interfacesText composite.interfaces)
  rw [Composite.piece, interfaces_eq, ← Piece.append_assoc]
  exact Heads.body front fun field inside => follows_field (unbroken field inside)

/-- A field of an input object follows its outline. -/
theorem follows_inputField (input : InputObject) (field : InputValue) :
    (input.fieldPiece field).Follows (input.fieldRows · field) := by
  have gap : (if input.isDescribed then Piece.text "\n" else Piece.text "").Follows
      fun _ => if input.isDescribed then [.gap] else [] := by
    split
    · exact Piece.follows_gap
    · exact Piece.follows_empty
  exact (Piece.follows_description field.description).append
    ((Piece.follows_line field.write).append gap)

/-- A schema follows its outline. -/
theorem follows_schema (schema : Schema) : schema.piece.Follows schema.rows := by
  have front := (Piece.follows_description schema.description).heads
    (Piece.heads_indented "schema")
  have roots : (Piece.concat schema.roots rootPiece).Follows fun depth =>
      schema.roots.flatMap fun root => [.line depth (root.1 ++ ": " ++ root.2)] :=
    Piece.follows_concat fun root _ => Piece.follows_line (root.1 ++ ": " ++ root.2)
  have whole := front.braces roots
  rw [Piece.append_assoc] at whole
  exact whole

/-- The names of legible fields have no line feeds. -/
theorem unbroken_fields {fields : List Grammar.FieldDefinition}
    (legible : ∀ field ∈ fields, AllLegible field.tokens) :
    ∀ field ∈ fields.map Field.ofGrammar, '\n' ∉ field.name.toList := by
  rw [List.forall_mem_map]
  intro field inside
  have own := legible field inside
  simp only [Grammar.FieldDefinition.tokens, allLegible_append, allLegible_cons] at own
  exact unbroken_name own.2.1

/-- A definition follows its outline when its tokens are legible. -/
theorem follows_definition {definition : Grammar.TypeSystemDefinition}
    (legible : AllLegible definition.tokens) :
    (Definition.ofTypeSystem definition).piece.Follows
      (Definition.ofTypeSystem definition).rows := by
  simp only [Grammar.TypeSystemDefinition.tokens, allLegible_append] at legible
  cases definition with
  | schema description directives roots => exact follows_schema _
  | scalar description name directives => exact (heads_header _ "scalar").line
  | object description name interfaces directives fields =>
    simp only [Grammar.TypeSystemDefinition.bodyTokens, allLegible_append, allLegible_cons,
      allLegible_enclosedTokens] at legible
    obtain ⟨-, -, -, -, -, parts⟩ := legible
    exact follows_composite "type" (unbroken_fields parts)
  | interface description name interfaces directives fields =>
    simp only [Grammar.TypeSystemDefinition.bodyTokens, allLegible_append, allLegible_cons,
      allLegible_enclosedTokens] at legible
    obtain ⟨-, -, -, -, -, parts⟩ := legible
    exact follows_composite "interface" (unbroken_fields parts)
  | union description name directives members =>
    have members_eq : membersPiece members = Piece.text (membersText members) := by
      unfold membersPiece membersText
      split <;> rfl
    have line := ((heads_header ⟨name, description, Grammar.directiveNames directives⟩
      "union").append_text (membersText members)).line
    rw [← members_eq, Piece.append_assoc] at line
    simp only [String.append_empty] at line
    exact line
  | enum description name directives values =>
    exact Heads.body (heads_header _ "enum") fun value _ =>
      (Piece.follows_description value.description).append (Piece.follows_line value.name)
  | inputObject description name directives fields =>
    exact Heads.body (heads_header _ "input") fun field _ => follows_inputField _ field

/-- The canonical form of a definition follows its outline. -/
theorem Definition.follows_canonical {definition : Grammar.TypeSystemDefinition}
    (legible : AllLegible definition.tokens) :
    (Definition.ofTypeSystem definition).canonical.piece.Follows
      (Definition.ofTypeSystem definition).canonical.rows := by
  rw [← Definition.ofTypeSystem_arranged]
  exact follows_definition (Grammar.TypeSystemDefinition.legible_arranged legible)

end Following

section Lists

/-- The argument list of a field, if it has arguments and none of them is described. -/
def Field.argumentLists (field : Field) : List ArgumentList :=
  if field.isListed then
    [⟨1, field.name, (Text.sortOn InputValue.name field.arguments).map InputValue.write⟩]
  else []

/-- The argument lists of a definition: those of its fields, which stand in one pair of
braces. -/
def Definition.argumentLists : Definition → List ArgumentList
  | object definition | interface definition => definition.fields.flatMap Field.argumentLists
  | schema _ | inputObject _ | enum _ | scalar _ | union _ | foreign _ => []

/-- The argument lists of a document: one for every field with arguments and none of them
described. -/
def Document.argumentLists (document : Document) : List ArgumentList :=
  document.definitions.flatMap Definition.argumentLists

/-- The row of a description shows no argument list. -/
theorem argumentLists_descriptionRows (depth : Nat) (value? : Option String) :
    Row.argumentLists (descriptionRows depth value?) = [] := by
  cases value? <;> rfl

/-- Outlines without argument lists show none together. -/
theorem argumentLists_flatMap_eq_nil {α : Type} {parts : List α} {rows : α → List Row}
    (none? : ∀ part ∈ parts, Row.argumentLists (rows part) = []) :
    Row.argumentLists (parts.flatMap rows) = [] := by
  rw [Row.argumentLists, List.filterMap_flatMap, List.flatMap_eq_nil_iff]
  exact none?

/-- The argument lists of parts in braces are those of the parts. -/
theorem argumentLists_bodyRows {α : Type} {front : String → List Row}
    (bare : ∀ ending, Row.argumentLists (front ending) = []) (depth : Nat) (parts : List α)
    (rows : Nat → α → List Row) : Row.argumentLists (bodyRows front depth parts rows) =
      parts.flatMap fun part => Row.argumentLists (rows (depth + 1) part) := by
  unfold bodyRows
  cases parts with
  | nil => exact bare ""
  | cons first others =>
    rw [List.isEmpty_cons, if_neg Bool.false_ne_true, Row.argumentLists_append,
      Row.argumentLists_append, bare, Row.argumentLists_line, List.append_nil, List.nil_append,
      Row.argumentLists, List.filterMap_flatMap]
    rfl

/-- The header of a type shows no argument list. -/
theorem Header.argumentLists_rows (header : Header) (keyword : String) (depth : Nat)
    (ending : String) : Row.argumentLists (header.rows keyword depth ending) = [] := by
  rw [Header.rows, Row.argumentLists_append, argumentLists_descriptionRows]
  rfl

/-- The outline of a field in canonical form shows its argument list, if it has one. -/
theorem Field.argumentLists_canonical (field : Field) :
    Row.argumentLists (field.canonical.rows 1) = field.argumentLists := by
  have sorted := Text.sortOn_perm InputValue.name field.arguments
  have same : field.canonical.arguments.isEmpty = field.arguments.isEmpty := by
    rw [Bool.eq_iff_iff, List.isEmpty_iff_length_eq_zero, List.isEmpty_iff_length_eq_zero,
      ← sorted.length_eq]
    rfl
  have alike : field.canonical.arguments.all (·.description.isNone) =
      field.arguments.all (·.description.isNone) := sorted.all_eq
  rw [Field.rows, Row.argumentLists_append, argumentLists_descriptionRows, List.nil_append]
  unfold Field.argumentRows Field.argumentLists Field.isListed
  rw [same, alike]
  cases field.arguments.isEmpty with
  | true => rfl
  | false =>
    cases field.arguments.all (·.description.isNone) with
    | true => rfl
    | false =>
      have lines : Row.argumentLists
          (field.canonical.arguments.flatMap (InputValue.rows 2)) = [] := by
        refine argumentLists_flatMap_eq_nil fun input _ => ?_
        rw [InputValue.rows, Row.argumentLists_append, argumentLists_descriptionRows]
        rfl
      rw [if_neg (by simp), if_neg (by simp), if_neg (by simp), ← List.singleton_append,
        Row.argumentLists_append, Row.argumentLists_append, lines]
      rfl

/-- The outline of a definition in canonical form shows the argument lists of the
definition. -/
theorem Definition.argumentLists_canonical (definition : Definition) :
    (Row.argumentLists (definition.canonical.rows 0)).Perm definition.argumentLists := by
  have composite (source : Composite) (keyword : String) :
      (Row.argumentLists (source.canonical.rows keyword 0)).Perm
        (source.fields.flatMap Field.argumentLists) := by
    have sorted := Text.sortOn_perm Field.name (source.fields.map Field.canonical)
    rw [Composite.rows, argumentLists_bodyRows fun ending => Header.argumentLists_rows _ _ _ _]
    refine (sorted.flatMap_right _).trans ?_
    rw [List.flatMap_map]
    exact List.Perm.flatMap_left _ fun field _ => .of_eq field.argumentLists_canonical
  cases definition with
  | object source => exact composite source "type"
  | interface source => exact composite source "interface"
  | schema source =>
    refine .of_eq ?_
    have roots : Row.argumentLists (source.roots.flatMap fun root =>
        [.line 1 (root.1 ++ ": " ++ root.2)]) = [] :=
      argumentLists_flatMap_eq_nil fun _ _ => rfl
    change Row.argumentLists (source.rows 0) = []
    rw [Schema.rows, Row.argumentLists_append, Row.argumentLists_append, Row.argumentLists_append,
      argumentLists_descriptionRows, roots]
    rfl
  | inputObject source =>
    refine .of_eq ?_
    change Row.argumentLists (source.canonical.rows 0) = []
    rw [InputObject.rows, argumentLists_bodyRows fun ending => Header.argumentLists_rows _ _ _ _,
      List.flatMap_eq_nil_iff]
    intro field _
    rw [InputObject.fieldRows, Row.argumentLists_append, argumentLists_descriptionRows]
    split <;> rfl
  | enum source =>
    refine .of_eq ?_
    change Row.argumentLists (source.canonical.rows 0) = []
    rw [Enum.rows, argumentLists_bodyRows fun ending => Header.argumentLists_rows _ _ _ _,
      List.flatMap_eq_nil_iff]
    intro value _
    rw [EnumValue.rows, Row.argumentLists_append, argumentLists_descriptionRows]
    rfl
  | scalar source => exact .of_eq (Header.argumentLists_rows source "scalar" 0 "")
  | union source => exact .of_eq (Header.argumentLists_rows source.header "union" 0 _)
  | foreign kind => exact .refl _

/-- The outline of a document in canonical form shows the argument lists of the document. -/
theorem Document.argumentLists_canonical (document : Document) :
    (Row.argumentLists document.canonical.rows).Perm document.argumentLists := by
  rw [Document.rows, Row.argumentLists_intercalate_gap, Document.canonical, List.flatMap_map,
    List.flatMap_map]
  exact List.Perm.flatMap_left _ fun definition _ => definition.argumentLists_canonical

end Lists

end GraphQLCanon.TypeSystem
