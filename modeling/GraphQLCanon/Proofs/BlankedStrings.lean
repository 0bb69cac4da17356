import Mathlib.Data.List.Basic
import GraphQLCanon.Proofs.ParsingDocuments
import GraphQLCanon.Proofs.QueryArrangement
import GraphQLCanon.Proofs.WrittenValues

/-!
# Definitions without the values of strings

What is left of a definition when every string in it is taken for the empty one, block strings
and descriptions among them. The grammar admits it as it does the definition, its tokens are
those of the definition with the same change, and what a document is ordered by is still there.
-/

namespace GraphQLCanon.Lexical

/-- A token with the empty string in place of every string, whichever form it has. -/
def Token.blanked : Token → Token
  | string _ => .string ""
  | blockString _ => .string ""
  | other => other

end GraphQLCanon.Lexical

namespace GraphQLCanon.Grammar

open GraphQLCanon.Lexical

section Blanking

mutual

/-- A value with the empty string in place of every string. -/
def Value.blanked : Value → Value
  | .string _ => .string ""
  | .blockString _ => .string ""
  | .list items => .list (Value.blankedEach items)
  | .object fields => .object (Value.blankedFields fields)
  | other => other

/-- The items of a list value with the empty string in place of every string. -/
def Value.blankedEach : List Value → List Value
  | [] => []
  | item :: items => item.blanked :: Value.blankedEach items

/-- The fields of an object value with the empty string in place of every string. -/
def Value.blankedFields : List (String × Value) → List (String × Value)
  | [] => []
  | (name, value) :: fields => (name, value.blanked) :: Value.blankedFields fields

end

/-- A named value with the empty string in place of every string. -/
def blankedArgument (argument : String × Value) : String × Value :=
  (argument.1, argument.2.blanked)

/-- Items are blanked one by one. -/
theorem Value.blankedEach_eq_map (items : List Value) :
    Value.blankedEach items = items.map Value.blanked := by
  induction items with
  | nil => rfl
  | cons item items inductionHypothesis =>
    rw [Value.blankedEach, inductionHypothesis, List.map_cons]

/-- Fields are blanked one by one. -/
theorem Value.blankedFields_eq_map (fields : List (String × Value)) :
    Value.blankedFields fields = fields.map blankedArgument := by
  induction fields with
  | nil => rfl
  | cons field fields inductionHypothesis =>
    rw [Value.blankedFields, inductionHypothesis, List.map_cons]
    rfl

/-- An empty description in place of every description. -/
def blankedDescription (description : Option String) : Option String :=
  description.map fun _ => ""

/-- A directive with the empty string in place of every string. -/
def Directive.blanked (directive : Directive) : Directive :=
  { directive with arguments := directive.arguments.map blankedArgument }

/-- A variable definition with the empty string in place of every string. -/
def VariableDefinition.blanked (definition : VariableDefinition) : VariableDefinition where
  description := blankedDescription definition.description
  name := definition.name
  type := definition.type
  default := definition.default.map Value.blanked
  directives := definition.directives.map Directive.blanked

mutual

/-- A selection with the empty string in place of every string. -/
def Selection.blanked : Selection → Selection
  | .field aliasName name arguments directives selections =>
    .field aliasName name (arguments.map blankedArgument) (directives.map Directive.blanked)
      (Selection.blankedEach selections)
  | .spread name directives => .spread name (directives.map Directive.blanked)
  | .inline typeCondition directives selections =>
    .inline typeCondition (directives.map Directive.blanked) (Selection.blankedEach selections)

/-- Selections with the empty string in place of every string. -/
def Selection.blankedEach : List Selection → List Selection
  | [] => []
  | selection :: selections => selection.blanked :: Selection.blankedEach selections

end

/-- Selections are blanked one by one. -/
theorem Selection.blankedEach_eq_map (selections : List Selection) :
    Selection.blankedEach selections = selections.map Selection.blanked := by
  induction selections with
  | nil => rfl
  | cons selection selections inductionHypothesis =>
    rw [Selection.blankedEach, inductionHypothesis, List.map_cons]

/-- An operation with the empty string in place of every string. -/
def OperationDefinition.blanked (definition : OperationDefinition) : OperationDefinition where
  description := blankedDescription definition.description
  operation := definition.operation
  name := definition.name
  variableDefinitions := definition.variableDefinitions.map VariableDefinition.blanked
  directives := definition.directives.map Directive.blanked
  selections := definition.selections.map Selection.blanked

/-- A fragment with the empty string in place of every string. -/
def FragmentDefinition.blanked (definition : FragmentDefinition) : FragmentDefinition where
  description := blankedDescription definition.description
  name := definition.name
  typeCondition := definition.typeCondition
  directives := definition.directives.map Directive.blanked
  selections := definition.selections.map Selection.blanked

/-- An argument definition or input field with the empty string in place of every string. -/
def InputValueDefinition.blanked (definition : InputValueDefinition) : InputValueDefinition where
  description := blankedDescription definition.description
  name := definition.name
  type := definition.type
  default := definition.default.map Value.blanked
  directives := definition.directives.map Directive.blanked

/-- A field definition with the empty string in place of every string. -/
def FieldDefinition.blanked (definition : FieldDefinition) : FieldDefinition where
  description := blankedDescription definition.description
  name := definition.name
  arguments := definition.arguments.map InputValueDefinition.blanked
  type := definition.type
  directives := definition.directives.map Directive.blanked

/-- An enum value with the empty string in place of every string. -/
def EnumValueDefinition.blanked (definition : EnumValueDefinition) : EnumValueDefinition where
  description := blankedDescription definition.description
  name := definition.name
  directives := definition.directives.map Directive.blanked

/-- A type-system definition with the empty string in place of every string. -/
def TypeSystemDefinition.blanked : TypeSystemDefinition → TypeSystemDefinition
  | schema description directives roots =>
    .schema (blankedDescription description) (directives.map Directive.blanked) roots
  | scalar description name directives =>
    .scalar (blankedDescription description) name (directives.map Directive.blanked)
  | object description name interfaces directives fields =>
    .object (blankedDescription description) name interfaces (directives.map Directive.blanked)
      (fields.map FieldDefinition.blanked)
  | interface description name interfaces directives fields =>
    .interface (blankedDescription description) name interfaces (directives.map Directive.blanked)
      (fields.map FieldDefinition.blanked)
  | union description name directives members =>
    .union (blankedDescription description) name (directives.map Directive.blanked) members
  | enum description name directives values =>
    .enum (blankedDescription description) name (directives.map Directive.blanked)
      (values.map EnumValueDefinition.blanked)
  | inputObject description name directives fields =>
    .inputObject (blankedDescription description) name (directives.map Directive.blanked)
      (fields.map InputValueDefinition.blanked)

/-- An operation or fragment with the empty string in place of every string. Other definitions
are left as they are. -/
def Definition.blanked : Definition → Definition
  | shorthand selections => .shorthand (selections.map Selection.blanked)
  | operation definition => .operation definition.blanked
  | fragment definition => .fragment definition.blanked
  | other => other

end Blanking

section Tokens

/-- Blanked items between two signs have the tokens of the items, blanked. -/
theorem blanked_enclosedTokens {α : Type} {opening closing : Punctuator} {shown : α → List Token}
    {change : α → α} {items : List α}
    (each : ∀ item ∈ items, shown (change item) = (shown item).map Token.blanked) :
    enclosedTokens opening closing shown (items.map change) =
      (enclosedTokens opening closing shown items).map Token.blanked := by
  have inner : (items.map change).flatMap shown =
      (items.flatMap shown).map Token.blanked := by
    rw [List.flatMap_map, List.map_flatMap]
    exact List.flatMap_congr each
  unfold enclosedTokens
  rw [List.isEmpty_map, inner]
  split <;> simp [Token.blanked]

/-- Names have no strings among their tokens. -/
theorem blanked_separatedTokens (separator : Punctuator) (names : List String) :
    (separatedTokens separator names).map Token.blanked = separatedTokens separator names := by
  fun_induction separatedTokens separator names <;> simp_all [Token.blanked]

/-- A blanked value has the tokens of the value, blanked. -/
theorem Value.tokens_blanked (value : Value) :
    value.blanked.tokens = value.tokens.map Token.blanked := by
  induction value using Value.induct with
  | leaf value noList noObject =>
    cases value with
    | list items => exact absurd rfl (noList items)
    | object fields => exact absurd rfl (noObject fields)
    | _ => rfl
  | list items inductionHypothesis =>
    have inner := List.flatMap_congr inductionHypothesis
    simp only [Value.blanked, Value.tokens, Value.blankedEach_eq_map, Value.tokensEach_eq_flatMap,
      List.flatMap_map, inner, List.map_cons, List.map_append, List.map_flatMap, List.map_nil,
      Token.blanked]
  | object fields inductionHypothesis =>
    have inner : ∀ field ∈ fields, namedTokens (blankedArgument field) =
        (namedTokens field).map Token.blanked := by
      intro field inside
      simp only [namedTokens, blankedArgument, inductionHypothesis field inside, List.map_cons,
        Token.blanked]
    have inner := List.flatMap_congr inner
    simp only [Value.blanked, Value.tokens, Value.blankedFields_eq_map,
      Value.tokensFields_eq_flatMap, List.flatMap_map, inner, List.map_cons, List.map_append,
      List.map_flatMap, List.map_nil, Token.blanked]

/-- Blanked arguments have the tokens of the arguments, blanked. -/
theorem argumentTokens_blanked (arguments : List (String × Value)) :
    argumentTokens (arguments.map blankedArgument) =
      (argumentTokens arguments).map Token.blanked :=
  blanked_enclosedTokens fun argument _ => by
    simp only [namedTokens, blankedArgument, Value.tokens_blanked, List.map_cons, Token.blanked]

/-- Blanked directives have the tokens of the directives, blanked. -/
theorem directiveTokens_blanked (directives : List Directive) :
    directiveTokens (directives.map Directive.blanked) =
      (directiveTokens directives).map Token.blanked := by
  rw [directiveTokens, directiveTokens, List.flatMap_map, List.map_flatMap]
  refine List.flatMap_congr fun directive _ => ?_
  simp only [Directive.tokens, Directive.blanked, argumentTokens_blanked, List.map_cons,
    Token.blanked]

/-- A type has no strings among its tokens. -/
theorem TypeReference.blanked_tokens (type : TypeReference) :
    type.tokens.map Token.blanked = type.tokens := by
  induction type with
  | named name => rfl
  | list item inductionHypothesis | nonNull item inductionHypothesis =>
    simp [TypeReference.tokens, inductionHypothesis, Token.blanked]

/-- An empty description is written as the empty string. -/
theorem descriptionTokens_blanked (description : Option String) :
    descriptionTokens (blankedDescription description) =
      (descriptionTokens description).map Token.blanked := by
  cases description <;> rfl

/-- A blanked default has the tokens of the default, blanked. -/
theorem defaultTokens_blanked (default : Option Value) :
    defaultTokens (default.map Value.blanked) = (defaultTokens default).map Token.blanked := by
  cases default with
  | none => rfl
  | some value =>
    simp only [Option.map_some, defaultTokens, Value.tokens_blanked, List.map_cons, Token.blanked]

/-- The name of a field has no strings among its tokens, with or without an alias. -/
theorem blanked_headerTokens (aliasName : Option String) (name : String) :
    (headerTokens aliasName name).map Token.blanked = headerTokens aliasName name := by
  cases aliasName <;> rfl

/-- A type condition has no strings among its tokens. -/
theorem blanked_conditionTokens (condition : Option String) :
    (conditionTokens condition).map Token.blanked = conditionTokens condition := by
  cases condition <;> rfl

/-- The name of an operation is no string. -/
theorem blanked_nameTokens (name : Option String) :
    (nameTokens name).map Token.blanked = nameTokens name := by
  cases name <;> rfl

/-- A blanked selection has the tokens of the selection, blanked. -/
theorem Selection.tokens_blanked (selection : Selection) :
    selection.blanked.tokens = selection.tokens.map Token.blanked := by
  induction selection using Selection.induct with
  | field aliasName name arguments directives selections inductionHypothesis =>
    have below : selectionTokens (selections.map Selection.blanked) =
        (selectionTokens selections).map Token.blanked :=
      blanked_enclosedTokens inductionHypothesis
    simp only [Selection.blanked, Selection.blankedEach_eq_map, Selection.tokens_field,
      argumentTokens_blanked, directiveTokens_blanked, below, List.map_append,
      blanked_headerTokens]
  | spread name directives =>
    simp only [Selection.blanked, Selection.tokens, directiveTokens_blanked, List.map_cons,
      Token.blanked]
  | inline typeCondition directives selections inductionHypothesis =>
    have below : selectionTokens (selections.map Selection.blanked) =
        (selectionTokens selections).map Token.blanked :=
      blanked_enclosedTokens inductionHypothesis
    simp only [Selection.blanked, Selection.blankedEach_eq_map, Selection.tokens_inline,
      directiveTokens_blanked, below, List.map_append, List.map_cons, blanked_conditionTokens,
      Token.blanked]

/-- A blanked variable definition has the tokens of the definition, blanked. -/
theorem VariableDefinition.tokens_blanked (definition : VariableDefinition) :
    definition.blanked.tokens = definition.tokens.map Token.blanked := by
  simp only [VariableDefinition.tokens, VariableDefinition.blanked, descriptionTokens_blanked,
    defaultTokens_blanked, directiveTokens_blanked, TypeReference.blanked_tokens, List.map_append,
    List.map_cons, Token.blanked]

/-- A blanked selection set has the tokens of the set, blanked. -/
theorem selectionTokens_blanked (selections : List Selection) :
    selectionTokens (selections.map Selection.blanked) =
      (selectionTokens selections).map Token.blanked :=
  blanked_enclosedTokens fun selection _ => selection.tokens_blanked

/-- A blanked argument definition or input field has its tokens, blanked. -/
theorem InputValueDefinition.tokens_blanked (definition : InputValueDefinition) :
    definition.blanked.tokens = definition.tokens.map Token.blanked := by
  simp only [InputValueDefinition.tokens, InputValueDefinition.blanked, descriptionTokens_blanked,
    defaultTokens_blanked, directiveTokens_blanked, TypeReference.blanked_tokens, List.map_append,
    List.map_cons, Token.blanked]

/-- A blanked field definition has the tokens of the definition, blanked. -/
theorem FieldDefinition.tokens_blanked (definition : FieldDefinition) :
    definition.blanked.tokens = definition.tokens.map Token.blanked := by
  have entries : argumentDefinitionTokens (definition.arguments.map InputValueDefinition.blanked) =
      (argumentDefinitionTokens definition.arguments).map Token.blanked :=
    blanked_enclosedTokens fun argument _ => argument.tokens_blanked
  simp only [FieldDefinition.tokens, FieldDefinition.blanked, descriptionTokens_blanked, entries,
    directiveTokens_blanked, TypeReference.blanked_tokens, List.map_append, List.map_cons,
    Token.blanked]

/-- A blanked enum value has the tokens of the value, blanked. -/
theorem EnumValueDefinition.tokens_blanked (definition : EnumValueDefinition) :
    definition.blanked.tokens = definition.tokens.map Token.blanked := by
  simp only [EnumValueDefinition.tokens, EnumValueDefinition.blanked, descriptionTokens_blanked,
    directiveTokens_blanked, List.map_append, List.map_cons, Token.blanked]

/-- Implemented interfaces have no strings among their tokens. -/
theorem blanked_interfaceTokens (interfaces : List String) :
    (interfaceTokens interfaces).map Token.blanked = interfaceTokens interfaces := by
  unfold interfaceTokens
  split
  · rfl
  · rw [List.map_cons, blanked_separatedTokens]
    rfl

/-- Union members have no strings among their tokens. -/
theorem blanked_memberTokens (members : List String) :
    (memberTokens members).map Token.blanked = memberTokens members := by
  unfold memberTokens
  split
  · rfl
  · rw [List.map_cons, blanked_separatedTokens]
    rfl

/-- A blanked type-system definition has the tokens of the definition, blanked. -/
theorem TypeSystemDefinition.tokens_blanked (definition : TypeSystemDefinition) :
    definition.blanked.tokens = definition.tokens.map Token.blanked := by
  have fieldTokens (fields : List FieldDefinition) :
      enclosedTokens .openBrace .closeBrace FieldDefinition.tokens
          (fields.map FieldDefinition.blanked) =
        (enclosedTokens .openBrace .closeBrace FieldDefinition.tokens fields).map Token.blanked :=
    blanked_enclosedTokens fun field _ => field.tokens_blanked
  cases definition with
  | schema description directives roots =>
    have entries : enclosedTokens .openBrace .closeBrace rootTokens roots =
        (enclosedTokens .openBrace .closeBrace rootTokens roots).map Token.blanked := by
      conv_lhs => rw [← List.map_id roots]
      exact blanked_enclosedTokens fun root _ => rfl
    simp only [tokens, blanked, description?, bodyTokens, descriptionTokens_blanked,
      directiveTokens_blanked, List.map_append, List.map_cons, Token.blanked, ← entries]
  | scalar description name directives =>
    simp only [tokens, blanked, description?, bodyTokens, descriptionTokens_blanked,
      directiveTokens_blanked, List.map_append, List.map_cons, Token.blanked]
  | object description name interfaces directives fields
  | interface description name interfaces directives fields =>
    simp only [tokens, blanked, description?, bodyTokens, descriptionTokens_blanked,
      directiveTokens_blanked, List.map_append, List.map_cons, Token.blanked,
      blanked_interfaceTokens, fieldTokens]
  | union description name directives members =>
    simp only [tokens, blanked, description?, bodyTokens, descriptionTokens_blanked,
      directiveTokens_blanked, List.map_append, List.map_cons, Token.blanked,
      blanked_memberTokens]
  | enum description name directives values =>
    have entries : enclosedTokens .openBrace .closeBrace EnumValueDefinition.tokens
        (values.map EnumValueDefinition.blanked) =
          (enclosedTokens .openBrace .closeBrace EnumValueDefinition.tokens values).map
            Token.blanked :=
      blanked_enclosedTokens fun value _ => value.tokens_blanked
    simp only [tokens, blanked, description?, bodyTokens, descriptionTokens_blanked,
      directiveTokens_blanked, List.map_append, List.map_cons, Token.blanked, entries]
  | inputObject description name directives fields =>
    have entries : enclosedTokens .openBrace .closeBrace InputValueDefinition.tokens
        (fields.map InputValueDefinition.blanked) =
          (enclosedTokens .openBrace .closeBrace InputValueDefinition.tokens fields).map
            Token.blanked :=
      blanked_enclosedTokens fun field _ => field.tokens_blanked
    simp only [tokens, blanked, description?, bodyTokens, descriptionTokens_blanked,
      directiveTokens_blanked, List.map_append, List.map_cons, Token.blanked, entries]

/-- A blanked operation or fragment has the tokens of the definition, blanked. -/
theorem Definition.tokens_blanked {definition : Definition}
    (executable : definition.isExecutable = true) :
    definition.blanked.tokens = definition.tokens.map Token.blanked := by
  cases definition with
  | shorthand selections => exact selectionTokens_blanked selections
  | operation source =>
    have entries : enclosedTokens .openParenthesis .closeParenthesis VariableDefinition.tokens
        (source.variableDefinitions.map VariableDefinition.blanked) =
          (enclosedTokens .openParenthesis .closeParenthesis VariableDefinition.tokens
            source.variableDefinitions).map Token.blanked :=
      blanked_enclosedTokens fun entry _ => entry.tokens_blanked
    simp only [tokens, blanked, OperationDefinition.tokens, OperationDefinition.blanked,
      descriptionTokens_blanked, entries, directiveTokens_blanked, selectionTokens_blanked,
      blanked_nameTokens, List.map_append, List.map_cons, Token.blanked]
  | fragment source =>
    simp only [tokens, blanked, FragmentDefinition.tokens, FragmentDefinition.blanked,
      descriptionTokens_blanked, directiveTokens_blanked, selectionTokens_blanked,
      List.map_append, List.map_cons, Token.blanked]
  | typeSystem source | directive source | extension source => cases executable

end Tokens

section Admission

variable {constant : Bool} {allowance : Nat}

/-- A value that fits does so with the empty string in place of every string. -/
theorem Value.fits_blanked {value : Value} (fits : value.Fits constant allowance) :
    value.blanked.Fits constant allowance := by
  induction fits with
  | variableRef name free => exact .variableRef name free
  | int text => exact .int text
  | float text => exact .float text
  | string value | blockString value => exact .string ""
  | boolean value => exact .boolean value
  | null => exact .null
  | enum name free => exact .enum name free
  | list items _ inductionHypothesis =>
    rw [Value.blanked, Value.blankedEach_eq_map]
    exact .list _ (List.forall_mem_map.2 inductionHypothesis)
  | object fields _ inductionHypothesis =>
    rw [Value.blanked, Value.blankedFields_eq_map]
    exact .object _ (List.forall_mem_map.2 inductionHypothesis)

/-- Arguments that fit do so blanked. -/
theorem argumentsFit_blanked {arguments : List (String × Value)}
    (fit : ArgumentsFit constant allowance arguments) :
    ArgumentsFit constant allowance (arguments.map blankedArgument) :=
  List.forall_mem_map.2 fun argument inside => Value.fits_blanked (fit argument inside)

/-- Directives that fit do so blanked. -/
theorem directivesFit_blanked {directives : List Directive}
    (fit : DirectivesFit constant allowance directives) :
    DirectivesFit constant allowance (directives.map Directive.blanked) :=
  List.forall_mem_map.2 fun directive inside => argumentsFit_blanked (fit directive inside)

/-- A default that fits does so blanked. -/
theorem defaultFits_blanked {default : Option Value} (fits : DefaultFits default) :
    DefaultFits (default.map Value.blanked) := by
  intro value given
  obtain ⟨source, present, rfl⟩ := Option.map_eq_some_iff.1 given
  exact Value.fits_blanked (fits source present)

/-- A selection that fits does so blanked. -/
theorem Selection.fits_blanked {selection : Selection} (fits : selection.Fits allowance) :
    selection.blanked.Fits allowance := by
  induction fits with
  | leaf aliasName name arguments directives argumentsFit directivesFit =>
    exact .leaf aliasName name _ _ (argumentsFit_blanked argumentsFit)
      (directivesFit_blanked directivesFit)
  | branch aliasName name arguments directives selections argumentsFit directivesFit nonempty _
    inductionHypothesis =>
    rw [Selection.blanked, Selection.blankedEach_eq_map]
    exact .branch aliasName name _ _ _ (argumentsFit_blanked argumentsFit)
      (directivesFit_blanked directivesFit) (by simpa using nonempty)
      (List.forall_mem_map.2 inductionHypothesis)
  | spread name directives free directivesFit =>
    exact .spread name _ free (directivesFit_blanked directivesFit)
  | inline typeCondition directives selections directivesFit nonempty _ inductionHypothesis =>
    rw [Selection.blanked, Selection.blankedEach_eq_map]
    exact .inline typeCondition _ _ (directivesFit_blanked directivesFit) (by simpa using nonempty)
      (List.forall_mem_map.2 inductionHypothesis)

/-- A selection set that fits does so blanked. -/
theorem selectionsFit_blanked {selections : List Selection}
    (fit : SelectionsFit allowance selections) :
    SelectionsFit allowance (selections.map Selection.blanked) := by
  obtain ⟨nonempty, inner, rfl, fits⟩ := fit
  exact ⟨by simpa using nonempty, inner, rfl, List.forall_mem_map.2 fun selection inside =>
    Selection.fits_blanked (fits selection inside)⟩

/-- A variable definition that fits does so blanked. -/
theorem VariableDefinition.fits_blanked {definition : VariableDefinition}
    (fits : definition.Fits) : definition.blanked.Fits where
  type := fits.type
  default := defaultFits_blanked fits.default
  directives := directivesFit_blanked fits.directives

/-- An argument definition or input field that fits does so blanked. -/
theorem InputValueDefinition.fits_blanked {definition : InputValueDefinition}
    (fits : definition.Fits) : definition.blanked.Fits where
  type := fits.type
  default := defaultFits_blanked fits.default
  directives := directivesFit_blanked fits.directives

/-- A field definition that fits does so blanked. -/
theorem FieldDefinition.fits_blanked {definition : FieldDefinition} (fits : definition.Fits) :
    definition.blanked.Fits where
  arguments := List.forall_mem_map.2 fun argument inside =>
    InputValueDefinition.fits_blanked (fits.arguments argument inside)
  type := fits.type
  directives := directivesFit_blanked fits.directives

/-- An enum value that fits does so blanked. -/
theorem EnumValueDefinition.fits_blanked {definition : EnumValueDefinition}
    (fits : definition.Fits) : definition.blanked.Fits where
  name := fits.name
  directives := directivesFit_blanked fits.directives

/-- A type-system definition that fits does so blanked. -/
theorem TypeSystemDefinition.fits_blanked {definition : TypeSystemDefinition}
    (fits : (Definition.typeSystem definition).Fits) :
    (Definition.typeSystem definition.blanked).Fits := by
  obtain ⟨parts, roots⟩ := fits
  cases definition with
  | schema description directives entries => exact ⟨directivesFit_blanked parts, roots⟩
  | scalar description name directives
  | union description name directives members =>
    exact ⟨directivesFit_blanked parts, trivial⟩
  | object description name interfaces directives fields
  | interface description name interfaces directives fields =>
    exact ⟨⟨directivesFit_blanked parts.1, List.forall_mem_map.2 fun field inside =>
      FieldDefinition.fits_blanked (parts.2 field inside)⟩, trivial⟩
  | enum description name directives values =>
    exact ⟨⟨directivesFit_blanked parts.1, List.forall_mem_map.2 fun value inside =>
      EnumValueDefinition.fits_blanked (parts.2 value inside)⟩, trivial⟩
  | inputObject description name directives fields =>
    exact ⟨⟨directivesFit_blanked parts.1, List.forall_mem_map.2 fun field inside =>
      InputValueDefinition.fits_blanked (parts.2 field inside)⟩, trivial⟩

/-- An operation or fragment stays one. -/
theorem Definition.isExecutable_blanked (definition : Definition) :
    definition.blanked.isExecutable = definition.isExecutable := by
  cases definition <;> rfl

/-- An operation or fragment that fits does so blanked. -/
theorem Definition.fits_blanked {definition : Definition}
    (executable : definition.isExecutable = true) (fits : definition.Fits) :
    definition.blanked.Fits := by
  cases definition with
  | shorthand selections => exact selectionsFit_blanked fits
  | operation source =>
    exact ⟨List.forall_mem_map.2 fun entry inside =>
      VariableDefinition.fits_blanked (fits.variableDefinitions entry inside),
      directivesFit_blanked fits.directives, selectionsFit_blanked fits.selections⟩
  | fragment source =>
    exact ⟨fits.name, directivesFit_blanked fits.directives,
      selectionsFit_blanked fits.selections⟩
  | typeSystem source | directive source | extension source => cases executable

end Admission

section Reading

/-- The blanked tokens of operations and fragments that fit are read as them, blanked. -/
theorem document_blanked {definitions : List Definition} (nonempty : definitions ≠ [])
    (executable : ∀ definition ∈ definitions, definition.isExecutable = true)
    (fit : ∀ definition ∈ definitions, definition.Fits) :
    Parser.document ((definitions.flatMap Definition.tokens).map Token.blanked) =
      .ok (definitions.map Definition.blanked, []) := by
  have tokens : (definitions.map Definition.blanked).flatMap Definition.tokens =
      (definitions.flatMap Definition.tokens).map Token.blanked := by
    rw [List.flatMap_map, List.map_flatMap]
    exact List.flatMap_congr fun definition inside =>
      Definition.tokens_blanked (executable definition inside)
  rw [← tokens]
  apply Parser.document_of_executables (by simpa using nonempty)
  · exact List.forall_mem_map.2 fun definition inside =>
      definition.isExecutable_blanked.trans (executable definition inside)
  · exact List.forall_mem_map.2 fun definition inside =>
      Definition.fits_blanked (executable definition inside) (fit definition inside)

/-- The blanked tokens of type-system definitions that fit are read as them, blanked. -/
theorem typeSystem_blanked {definitions : List TypeSystemDefinition} (nonempty : definitions ≠ [])
    (fit : ∀ definition ∈ definitions, (Definition.typeSystem definition).Fits) :
    Parser.document ((definitions.flatMap TypeSystemDefinition.tokens).map Token.blanked) =
      .ok ((definitions.map TypeSystemDefinition.blanked).map Definition.typeSystem, []) := by
  have tokens : ((definitions.map TypeSystemDefinition.blanked).map
      Definition.typeSystem).flatMap Definition.tokens =
        (definitions.flatMap TypeSystemDefinition.tokens).map Token.blanked := by
    rw [List.flatMap_map, List.flatMap_map, List.map_flatMap]
    exact List.flatMap_congr fun definition _ => definition.tokens_blanked
  rw [← tokens]
  apply Parser.document_of_typeSystem (by simpa using nonempty)
  exact List.forall_mem_map.2 fun definition inside =>
    TypeSystemDefinition.fits_blanked (fit definition inside)

end Reading

end GraphQLCanon.Grammar
