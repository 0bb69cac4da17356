import GraphQLCanon.Proofs.QueryRefusals
import GraphQLCanon.Proofs.SchemaRefusals

/-!
# The sign of directives

Every directive is written with a sign that stands nowhere else in an operation, a fragment
or a type-system definition. So the lists of parts that may carry directives forget none:
no directive stands on any of them exactly when the sign is not among the tokens, and what
decides whether a text has a canonical form can be seen in its tokens.
-/

namespace GraphQLCanon.Grammar

open GraphQLCanon.Lexical

/-- True of tokens without the sign of a directive. -/
def Unsigned (tokens : List Token) : Prop := Token.punctuator .atSign ∉ tokens

@[simp]
theorem unsigned_nil : Unsigned [] := by simp [Unsigned]

@[simp]
theorem unsigned_cons (token : Token) (tokens : List Token) :
    Unsigned (token :: tokens) ↔ token ≠ .punctuator .atSign ∧ Unsigned tokens := by
  simp [Unsigned, eq_comm]

@[simp]
theorem unsigned_append (left right : List Token) :
    Unsigned (left ++ right) ↔ Unsigned left ∧ Unsigned right := by
  simp [Unsigned]

@[simp]
theorem unsigned_flatMap {α : Type} (shown : α → List Token) (items : List α) :
    Unsigned (items.flatMap shown) ↔ ∀ item ∈ items, Unsigned (shown item) := by
  simp [Unsigned]

/-- Items between two signs have the sign of a directive where one of them has it. -/
theorem unsigned_enclosedTokens {α : Type} {opening closing : Punctuator}
    (begun : opening ≠ .atSign) (ended : closing ≠ .atSign) (shown : α → List Token)
    (items : List α) :
    Unsigned (enclosedTokens opening closing shown items) ↔
      ∀ item ∈ items, Unsigned (shown item) := by
  cases items with
  | nil => simp [enclosedTokens]
  | cons first others => simp [enclosedTokens, begun, ended]

/-- Items between two signs are without that of a directive when the parts of which each has
one are bare. -/
theorem unsigned_enclosedTokens_iff_bare {α : Type} {opening closing : Punctuator}
    (begun : opening ≠ .atSign) (ended : closing ≠ .atSign) {shown : α → List Token}
    {carrier : α → Carrier} {items : List α}
    (each : ∀ item ∈ items, Unsigned (shown item) ↔ (carrier item).directives = []) :
    Unsigned (enclosedTokens opening closing shown items) ↔ Bare (items.map carrier) := by
  rw [unsigned_enclosedTokens begun ended, Bare, List.forall_mem_map]
  exact forall₂_congr each

/-- No value has the sign of a directive in it. -/
theorem Value.unsigned_tokens (value : Value) : Unsigned value.tokens := by
  induction value using Value.induct with
  | leaf value noList noObject =>
    cases value with
    | list items => exact absurd rfl (noList items)
    | object fields => exact absurd rfl (noObject fields)
    | _ => simp [Value.tokens]
  | list items inductionHypothesis =>
    simpa [Value.tokens, Value.tokensEach_eq_flatMap] using inductionHypothesis
  | object fields inductionHypothesis =>
    simpa [Value.tokens, Value.tokensFields_eq_flatMap, namedTokens] using inductionHypothesis

/-- No type has the sign of a directive in it. -/
theorem TypeReference.unsigned_tokens (type : TypeReference) : Unsigned type.tokens := by
  induction type with
  | named name => simp [TypeReference.tokens]
  | list item inductionHypothesis => simpa [TypeReference.tokens] using inductionHypothesis
  | nonNull type inductionHypothesis => simpa [TypeReference.tokens] using inductionHypothesis

/-- No argument has the sign of a directive in it. -/
theorem unsigned_argumentTokens (arguments : List (String × Value)) :
    Unsigned (argumentTokens arguments) := by
  rw [argumentTokens, unsigned_enclosedTokens (by decide) (by decide)]
  simp [namedTokens, Value.unsigned_tokens]

/-- No description is the sign of a directive. -/
theorem unsigned_descriptionTokens (description : Option String) :
    Unsigned (descriptionTokens description) := by
  cases description <;> simp [descriptionTokens]

/-- No default has the sign of a directive in it. -/
theorem unsigned_defaultTokens (default : Option Value) : Unsigned (defaultTokens default) := by
  cases default <;> simp [defaultTokens, Value.unsigned_tokens]

/-- Names with another sign between them are without that of a directive. -/
theorem unsigned_separatedTokens {separator : Punctuator} (other : separator ≠ .atSign)
    (names : List String) : Unsigned (separatedTokens separator names) := by
  have permuted := separatedTokens_perm_names separator names
  rw [Unsigned, permuted.mem_iff]
  simp [List.mem_replicate, eq_comm, other]

/-- Directives are without their sign when there are none. -/
theorem unsigned_directiveTokens (directives : List Directive) :
    Unsigned (directiveTokens directives) ↔ directives = [] := by
  cases directives with
  | nil => simp [directiveTokens]
  | cons first others => simp [directiveTokens, Directive.tokens]

/-- Selections are without the sign when they are bare, if that is so for each of them. -/
theorem unsigned_selectionTokens {selections : List Selection}
    (each : ∀ selection ∈ selections, Unsigned selection.tokens ↔ Bare selection.carriers) :
    Unsigned (selectionTokens selections) ↔ Bare (carriersEach selections) := by
  rw [selectionTokens, unsigned_enclosedTokens (by decide) (by decide), carriersEach_eq_flatMap,
    bare_flatMap]
  exact forall₂_congr each

/-- A selection is without the sign when no directive stands on it or below it. -/
theorem Selection.unsigned_tokens (selection : Selection) :
    Unsigned selection.tokens ↔ Bare selection.carriers := by
  induction selection using Selection.induct with
  | field aliasName name arguments directives selections inductionHypothesis =>
    have header : Unsigned (headerTokens aliasName name) := by
      cases aliasName <;> simp [headerTokens]
    simp [Selection.tokens_field, Selection.carriers, header, unsigned_argumentTokens,
      unsigned_directiveTokens, unsigned_selectionTokens inductionHypothesis]
  | spread name directives =>
    simp [Selection.tokens, Selection.carriers, unsigned_directiveTokens]
  | inline typeCondition directives selections inductionHypothesis =>
    have condition : Unsigned (conditionTokens typeCondition) := by
      cases typeCondition <;> simp [conditionTokens]
    simp [Selection.tokens_inline, Selection.carriers, condition, unsigned_directiveTokens,
      unsigned_selectionTokens inductionHypothesis]

/-- A variable is without the sign when no directive stands on it. -/
theorem VariableDefinition.unsigned_tokens (definition : VariableDefinition) :
    Unsigned definition.tokens ↔ definition.directives = [] := by
  simp [VariableDefinition.tokens, unsigned_descriptionTokens, TypeReference.unsigned_tokens,
    unsigned_defaultTokens, unsigned_directiveTokens]

/-- An operation or fragment is without the sign when no directive stands on any part of
it. -/
theorem Definition.unsigned_tokens_of_isExecutable {definition : Definition}
    (executable : definition.isExecutable = true) :
    Unsigned definition.tokens ↔ Bare definition.carriers := by
  have sets (selections : List Selection) :=
    @unsigned_selectionTokens selections fun selection _ => selection.unsigned_tokens
  cases definition with
  | shorthand selections => simp [tokens, carriers, sets]
  | operation source =>
    have name : Unsigned (nameTokens source.name) := by cases source.name <;> simp [nameTokens]
    have entries : Unsigned (enclosedTokens .openParenthesis .closeParenthesis
        VariableDefinition.tokens source.variableDefinitions) ↔
          Bare (source.variableDefinitions.map VariableDefinition.carrier) :=
      unsigned_enclosedTokens_iff_bare (by decide) (by decide) fun entry _ => entry.unsigned_tokens
    have parts : Unsigned (Definition.operation source).tokens ↔
        Bare (source.variableDefinitions.map VariableDefinition.carrier) ∧
          source.directives = [] ∧ Bare (carriersEach source.selections) := by
      simp [tokens, OperationDefinition.tokens, unsigned_descriptionTokens, name, entries,
        unsigned_directiveTokens, sets]
    rw [parts, carriers, OperationDefinition.carriers, bare_cons, bare_append]
    exact and_left_comm
  | fragment source =>
    simp [tokens, FragmentDefinition.tokens, carriers, FragmentDefinition.carriers,
      unsigned_descriptionTokens, unsigned_directiveTokens, sets]
  | typeSystem | directive | extension => cases executable

/-- An argument definition or an input field is without the sign when no directive stands on
it. -/
theorem InputValueDefinition.unsigned_tokens (definition : InputValueDefinition) :
    Unsigned definition.tokens ↔ definition.directives = [] := by
  simp [InputValueDefinition.tokens, unsigned_descriptionTokens, TypeReference.unsigned_tokens,
    unsigned_defaultTokens, unsigned_directiveTokens]

/-- An enum value is without the sign when no directive stands on it. -/
theorem EnumValueDefinition.unsigned_tokens (definition : EnumValueDefinition) :
    Unsigned definition.tokens ↔ definition.directives = [] := by
  simp [EnumValueDefinition.tokens, unsigned_descriptionTokens, unsigned_directiveTokens]

/-- A field is without the sign when no directive stands on it or on one of its arguments. -/
theorem FieldDefinition.unsigned_tokens (owner : String) (definition : FieldDefinition) :
    Unsigned definition.tokens ↔ Bare (definition.carriers owner) := by
  have arguments : Unsigned (argumentDefinitionTokens definition.arguments) ↔
      Bare (definition.arguments.map fun argument =>
        ⟨.argument owner definition.name argument.name, argument.directives⟩) :=
    unsigned_enclosedTokens_iff_bare (by decide) (by decide)
      fun argument _ => argument.unsigned_tokens
  have parts : Unsigned definition.tokens ↔
      Unsigned (argumentDefinitionTokens definition.arguments) ∧ definition.directives = [] := by
    simp [FieldDefinition.tokens, unsigned_descriptionTokens, TypeReference.unsigned_tokens,
      unsigned_directiveTokens]
  rw [parts, arguments, carriers, bare_cons]
  exact and_comm

/-- Fields are without the sign when no directive stands on one or on one of its
arguments. -/
theorem unsigned_fieldTokens (owner : String) (fields : List FieldDefinition) :
    Unsigned (enclosedTokens .openBrace .closeBrace FieldDefinition.tokens fields) ↔
      Bare (fields.flatMap (FieldDefinition.carriers owner)) := by
  rw [unsigned_enclosedTokens (by decide) (by decide), bare_flatMap]
  exact forall₂_congr fun field _ => field.unsigned_tokens owner

/-- No list of interfaces has the sign of a directive in it. -/
theorem unsigned_interfaceTokens (interfaces : List String) :
    Unsigned (interfaceTokens interfaces) := by
  unfold interfaceTokens
  split
  · exact unsigned_nil
  · simpa using unsigned_separatedTokens (by decide) interfaces

/-- No list of union members has the sign of a directive in it. -/
theorem unsigned_memberTokens (members : List String) : Unsigned (memberTokens members) := by
  unfold memberTokens
  split
  · exact unsigned_nil
  · simpa using unsigned_separatedTokens (by decide) members

/-- A type-system definition is without the sign when no directive stands on any part of
it. -/
theorem TypeSystemDefinition.unsigned_tokens (definition : TypeSystemDefinition) :
    Unsigned definition.tokens ↔ Bare definition.carriers := by
  rw [tokens, unsigned_append, carriers, bare_cons]
  refine (and_iff_right (unsigned_descriptionTokens _)).trans ?_
  cases definition with
  | schema description directives roots =>
    have entries : Unsigned (enclosedTokens .openBrace .closeBrace rootTokens roots) := by
      rw [unsigned_enclosedTokens (by decide) (by decide)]
      simp [rootTokens]
    simp [bodyTokens, carrier, partCarriers, unsigned_directiveTokens, entries]
  | scalar description name directives =>
    simp [bodyTokens, carrier, partCarriers, unsigned_directiveTokens]
  | object description name interfaces directives fields
  | interface description name interfaces directives fields =>
    simp [bodyTokens, carrier, partCarriers, unsigned_directiveTokens, unsigned_interfaceTokens,
      unsigned_fieldTokens name]
  | union description name directives members =>
    simp [bodyTokens, carrier, partCarriers, unsigned_directiveTokens, unsigned_memberTokens]
  | enum description name directives values =>
    have parts := @unsigned_enclosedTokens_iff_bare _ .openBrace .closeBrace (by decide)
      (by decide) _ (fun value => ⟨.enumValue name value.name, value.directives⟩) values
      fun value _ => value.unsigned_tokens
    simp [bodyTokens, carrier, partCarriers, unsigned_directiveTokens, parts]
  | inputObject description name directives fields =>
    have parts := @unsigned_enclosedTokens_iff_bare _ .openBrace .closeBrace (by decide)
      (by decide) _ (fun field => ⟨.inputField name field.name, field.directives⟩) fields
      fun field _ => field.unsigned_tokens
    simp [bodyTokens, carrier, partCarriers, unsigned_directiveTokens, parts]

/-- No sign that may lead a list of names is that of a directive. -/
theorem Definition.atSign_notMem_leadingSigns (definition : Definition) :
    Punctuator.atSign ∉ definition.leadingSigns := by
  have lead {sign : Punctuator} (other : sign ≠ .atSign) (names : List String) :
      Punctuator.atSign ∉ leadingSign sign names := by
    unfold leadingSign
    split <;> simp [other.symm]
  have parts (source : TypeSystemDefinition) : Punctuator.atSign ∉ source.leadingSigns := by
    cases source with
    | object | interface | union => exact lead (by decide) _
    | schema | scalar | enum | inputObject => exact List.not_mem_nil
  cases definition with
  | shorthand | operation | fragment => exact List.not_mem_nil
  | typeSystem source => exact parts source
  | directive source => exact lead (by decide) source.locations
  | extension addition => exact parts addition

/-- A text that was read is without the sign when its definitions are. -/
theorem unsigned_scan {text : String} {definitions : Document}
    (read : Document.ofText text = .ok definitions) :
    Unsigned (scan text.toList).tokens ↔ ∀ definition ∈ definitions, Unsigned definition.tokens := by
  obtain ⟨written, leading, denotes, listed, permuted⟩ := Document.ofText_tokens_perm read
  have described : Unsigned written := by
    have each : List.Forall₂ (fun token value =>
        token ≠ .punctuator .atSign ∧ Token.Denotes token value) written
          (definitions.flatMap Definition.descriptions) := by
      refine denotes.imp fun token value one => ⟨?_, one⟩
      rintro rfl
      obtain one | one := one <;> cases one
    exact fun inside => ((List.forall₂_and_left _ _).1 each).1 _ inside rfl
  have led : Unsigned (leading.map Token.punctuator) := by
    intro inside
    obtain ⟨sign, member, same⟩ := List.mem_map.1 inside
    cases same
    obtain ⟨definition, -, found⟩ := List.mem_flatMap.1 (listed.subset member)
    exact definition.atSign_notMem_leadingSigns found
  have quoted : Unsigned ((definitions.flatMap Definition.descriptions).map Token.string) := by
    simp [Unsigned]
  have same : Unsigned ((scan text.toList).tokens ++
      (definitions.flatMap Definition.descriptions).map Token.string) ↔
        Unsigned (definitions.flatMap Definition.tokens ++
          (written ++ leading.map Token.punctuator)) :=
    not_congr permuted.mem_iff
  rw [unsigned_append, unsigned_append, unsigned_append, unsigned_flatMap] at same
  simpa [quoted, described, led] using same

end GraphQLCanon.Grammar

namespace GraphQLCanon

open GraphQLCanon.Grammar
open GraphQLCanon.Lexical

/-- A query text is accepted exactly when it is read as operations and fragments and the sign
of directives is not among its tokens. -/
theorem queryAccepted_iff_unsigned {text : String} :
    QueryAccepted text ↔ ∃ definitions, Grammar.Document.ofText text = .ok definitions ∧
      (∀ definition ∈ definitions, definition.isExecutable = true) ∧
        Unsigned (scan text.toList).tokens := by
  refine exists_congr fun definitions => and_congr_right fun read => ?_
  rw [unsigned_scan read, ← forall₂_and]
  refine forall₂_congr fun definition _ => and_congr_right fun executable => ?_
  exact (Definition.unsigned_tokens_of_isExecutable executable).symm

/-- A schema text is accepted exactly when it is read as type-system definitions, the sign of
directives is not among its tokens, and no descriptions are mixed where they are strict. -/
theorem schemaAccepted_iff_unsigned {text : String} {strict : Bool} :
    SchemaAccepted text strict ↔ ∃ definitions : List TypeSystemDefinition,
      Grammar.Document.ofText text = .ok (definitions.map .typeSystem) ∧
        Unsigned (scan text.toList).tokens ∧
          (strict = true → ∀ definition ∈ definitions, definition.isMixed = false) := by
  refine exists_congr fun definitions => and_congr_right fun read => ?_
  rw [unsigned_scan read, List.forall_mem_map, forall₂_and]
  refine and_congr (forall₂_congr fun definition _ => definition.unsigned_tokens.symm) ?_
  exact ⟨fun each asked definition inside => each definition inside asked,
    fun none definition inside asked => none asked definition inside⟩

end GraphQLCanon
