import GraphQLCanon.Proofs.Descriptions

/-!
# The token form of source documents

Which tokens write a definition and its parts, in their order. Descriptions are
written as quoted strings and optional separators are left out, so that every
definition has one token form. Layout plays no part here.
-/

namespace GraphQLCanon.Grammar

open GraphQLCanon.Lexical

/-- Items between two signs, or nothing where there are none. -/
def enclosedTokens {α : Type} (opening closing : Punctuator) (shown : α → List Token)
    (items : List α) : List Token :=
  if items.isEmpty then []
  else .punctuator opening :: (items.flatMap shown ++ [.punctuator closing])

/-- Items between two signs begin with the first one, if there are any. -/
theorem enclosedTokens_begun {α : Type} (opening closing : Punctuator) (shown : α → List Token)
    (items : List α) :
    enclosedTokens opening closing shown items = [] ∨
      (enclosedTokens opening closing shown items).head? = some (.punctuator opening) := by
  cases items with
  | nil => exact .inl rfl
  | cons first others => exact .inr rfl

/-- Names with a sign between them. -/
def separatedTokens (separator : Punctuator) : List String → List Token
  | [] => []
  | [only] => [.name only]
  | first :: others => .name first :: .punctuator separator :: separatedTokens separator others

mutual

/-- The tokens of a value. -/
def Value.tokens : Value → List Token
  | .variableRef name => [.punctuator .dollar, .name name]
  | .int text => [.int text]
  | .float text => [.float text]
  | .string value => [.string value]
  | .blockString value => [.blockString value]
  | .boolean value => [.name (if value then "true" else "false")]
  | .null => [.name "null"]
  | .enum name => [.name name]
  | .list items =>
    .punctuator .openBracket :: (Value.tokensEach items ++ [.punctuator .closeBracket])
  | .object fields =>
    .punctuator .openBrace :: (Value.tokensFields fields ++ [.punctuator .closeBrace])

/-- The tokens of the items of a list value. -/
def Value.tokensEach : List Value → List Token
  | [] => []
  | item :: items => item.tokens ++ Value.tokensEach items

/-- The tokens of the fields of an object value. -/
def Value.tokensFields : List (String × Value) → List Token
  | [] => []
  | (name, value) :: fields =>
    .name name :: .punctuator .colon :: value.tokens ++ Value.tokensFields fields

end

/-- No value begins with the sign that closes a list. -/
theorem Value.head_tokens (value : Value) (rest : List Token) :
    (value.tokens ++ rest).head? ≠ some (.punctuator .closeBracket) := by
  cases value <;> simp [Value.tokens]

/-- The tokens of a named value. -/
def namedTokens (argument : String × Value) : List Token :=
  .name argument.1 :: .punctuator .colon :: argument.2.tokens

/-- The items of a list value are written one after another. -/
theorem Value.tokensEach_eq_flatMap (items : List Value) :
    Value.tokensEach items = items.flatMap Value.tokens := by
  induction items with
  | nil => rfl
  | cons item items inductionHypothesis => simp [Value.tokensEach, inductionHypothesis]

/-- The fields of an object value are written one after another. -/
theorem Value.tokensFields_eq_flatMap (fields : List (String × Value)) :
    Value.tokensFields fields = fields.flatMap namedTokens := by
  induction fields with
  | nil => rfl
  | cons field fields inductionHypothesis =>
    simp [Value.tokensFields, namedTokens, inductionHypothesis]

/-- The tokens of a type reference. -/
def TypeReference.tokens : TypeReference → List Token
  | named name => [.name name]
  | list item => .punctuator .openBracket :: (item.tokens ++ [.punctuator .closeBracket])
  | nonNull type => type.tokens ++ [.punctuator .bang]

/-- The tokens of arguments, none where there are no arguments. -/
def argumentTokens (arguments : List (String × Value)) : List Token :=
  enclosedTokens .openParenthesis .closeParenthesis namedTokens arguments

/-- The tokens of the application of a directive. -/
def Directive.tokens (directive : Directive) : List Token :=
  .punctuator .atSign :: .name directive.name :: argumentTokens directive.arguments

/-- The tokens of directives. -/
def directiveTokens (directives : List Directive) : List Token :=
  directives.flatMap Directive.tokens

/-- Directives begin with their sign, if there are any. -/
theorem directiveTokens_begun (directives : List Directive) :
    directiveTokens directives = [] ∨
      (directiveTokens directives).head? = some (.punctuator .atSign) := by
  cases directives with
  | nil => exact .inl rfl
  | cons first others => exact .inr rfl

/-- The tokens of a description, if there is one. -/
def descriptionTokens : Option String → List Token
  | none => []
  | some description => [.string description]

/-- A description is written as its value in quotes. -/
theorem descriptionTokens_eq_map (description : Option String) :
    descriptionTokens description = description.toList.map Token.string := by
  cases description <;> rfl

/-- The tokens of a default, if there is one. -/
def defaultTokens : Option Value → List Token
  | none => []
  | some value => .punctuator .equals :: value.tokens

/-- The tokens of the definition of a variable. -/
def VariableDefinition.tokens (definition : VariableDefinition) : List Token :=
  descriptionTokens definition.description ++
    .punctuator .dollar :: .name definition.name :: .punctuator .colon ::
      (definition.type.tokens ++ (defaultTokens definition.default ++
        directiveTokens definition.directives))

/-- The tokens of the name of a field behind its alias. -/
def headerTokens (aliasName : Option String) (name : String) : List Token :=
  match aliasName with
  | none => [.name name]
  | some aliasName => [.name aliasName, .punctuator .colon, .name name]

/-- The tokens of a type condition, if there is one. -/
def conditionTokens : Option String → List Token
  | none => []
  | some type => [.name "on", .name type]

mutual

/-- The tokens of a selection. -/
def Selection.tokens : Selection → List Token
  | .field aliasName name arguments directives selections =>
    headerTokens aliasName name ++ (argumentTokens arguments ++ (directiveTokens directives ++
      if selections.isEmpty then []
      else .punctuator .openBrace :: (Selection.tokensEach selections ++
        [.punctuator .closeBrace])))
  | .spread name directives =>
    .punctuator .ellipsis :: .name name :: directiveTokens directives
  | .inline typeCondition directives selections =>
    .punctuator .ellipsis :: (conditionTokens typeCondition ++ (directiveTokens directives ++
      if selections.isEmpty then []
      else .punctuator .openBrace :: (Selection.tokensEach selections ++
        [.punctuator .closeBrace])))

/-- The tokens of selections. -/
def Selection.tokensEach : List Selection → List Token
  | [] => []
  | selection :: selections => selection.tokens ++ Selection.tokensEach selections

end

/-- The tokens of a selection set, none where there are no selections. -/
def selectionTokens (selections : List Selection) : List Token :=
  enclosedTokens .openBrace .closeBrace Selection.tokens selections

/-- Selections are written one after another. -/
theorem Selection.tokensEach_eq_flatMap (selections : List Selection) :
    Selection.tokensEach selections = selections.flatMap Selection.tokens := by
  induction selections with
  | nil => rfl
  | cons selection selections inductionHypothesis =>
    simp [Selection.tokensEach, inductionHypothesis]

/-- A field is written with its selections behind it. -/
theorem Selection.tokens_field (aliasName : Option String) (name : String)
    (arguments : List (String × Value)) (directives : List Directive)
    (selections : List Selection) :
    (Selection.field aliasName name arguments directives selections).tokens =
      headerTokens aliasName name ++ (argumentTokens arguments ++ (directiveTokens directives ++
        selectionTokens selections)) := by
  simp only [Selection.tokens, selectionTokens, enclosedTokens, Selection.tokensEach_eq_flatMap]

/-- An inline fragment is written with its selections behind it. -/
theorem Selection.tokens_inline (typeCondition : Option String) (directives : List Directive)
    (selections : List Selection) :
    (Selection.inline typeCondition directives selections).tokens =
      .punctuator .ellipsis :: (conditionTokens typeCondition ++ (directiveTokens directives ++
        selectionTokens selections)) := by
  simp only [Selection.tokens, selectionTokens, enclosedTokens, Selection.tokensEach_eq_flatMap]

/-- The tokens of the name of an operation, if it has one. -/
def nameTokens : Option String → List Token
  | none => []
  | some name => [.name name]

/-- The tokens of an operation. -/
def OperationDefinition.tokens (definition : OperationDefinition) : List Token :=
  descriptionTokens definition.description ++
    .name definition.operation.keyword :: (nameTokens definition.name ++
      (enclosedTokens .openParenthesis .closeParenthesis VariableDefinition.tokens
        definition.variableDefinitions ++
        (directiveTokens definition.directives ++ selectionTokens definition.selections)))

/-- The tokens of a named fragment. -/
def FragmentDefinition.tokens (definition : FragmentDefinition) : List Token :=
  descriptionTokens definition.description ++
    .name "fragment" :: .name definition.name :: .name "on" :: .name definition.typeCondition ::
      (directiveTokens definition.directives ++ selectionTokens definition.selections)

/-- The tokens of an argument definition or an input field. -/
def InputValueDefinition.tokens (definition : InputValueDefinition) : List Token :=
  descriptionTokens definition.description ++
    .name definition.name :: .punctuator .colon ::
      (definition.type.tokens ++ (defaultTokens definition.default ++
        directiveTokens definition.directives))

/-- The tokens of argument definitions, none where there are none. -/
def argumentDefinitionTokens (definitions : List InputValueDefinition) : List Token :=
  enclosedTokens .openParenthesis .closeParenthesis InputValueDefinition.tokens definitions

/-- The tokens of a field of an object type or interface. -/
def FieldDefinition.tokens (definition : FieldDefinition) : List Token :=
  descriptionTokens definition.description ++
    .name definition.name :: (argumentDefinitionTokens definition.arguments ++
      .punctuator .colon :: (definition.type.tokens ++ directiveTokens definition.directives))

/-- The tokens of a value of an enum type. -/
def EnumValueDefinition.tokens (definition : EnumValueDefinition) : List Token :=
  descriptionTokens definition.description ++
    .name definition.name :: directiveTokens definition.directives

/-- The tokens of a root operation and its type. -/
def rootTokens (root : OperationType × String) : List Token :=
  [.name root.1.keyword, .punctuator .colon, .name root.2]

/-- The tokens of implemented interfaces, none where there are none. -/
def interfaceTokens (interfaces : List String) : List Token :=
  if interfaces.isEmpty then []
  else .name "implements" :: separatedTokens .ampersand interfaces

/-- The tokens of the members of a union, none where there are none. -/
def memberTokens (members : List String) : List Token :=
  if members.isEmpty then [] else .punctuator .equals :: separatedTokens .pipe members

/-- The tokens of a type-system definition behind its description. -/
def TypeSystemDefinition.bodyTokens : TypeSystemDefinition → List Token
  | schema _ directives roots =>
    .name "schema" :: (directiveTokens directives ++
      enclosedTokens .openBrace .closeBrace rootTokens roots)
  | scalar _ name directives => .name "scalar" :: .name name :: directiveTokens directives
  | object _ name interfaces directives fields =>
    .name "type" :: .name name :: (interfaceTokens interfaces ++ (directiveTokens directives ++
      enclosedTokens .openBrace .closeBrace FieldDefinition.tokens fields))
  | interface _ name interfaces directives fields =>
    .name "interface" :: .name name :: (interfaceTokens interfaces ++
      (directiveTokens directives ++
        enclosedTokens .openBrace .closeBrace FieldDefinition.tokens fields))
  | union _ name directives members =>
    .name "union" :: .name name :: (directiveTokens directives ++ memberTokens members)
  | enum _ name directives values =>
    .name "enum" :: .name name :: (directiveTokens directives ++
      enclosedTokens .openBrace .closeBrace EnumValueDefinition.tokens values)
  | inputObject _ name directives fields =>
    .name "input" :: .name name :: (directiveTokens directives ++
      enclosedTokens .openBrace .closeBrace InputValueDefinition.tokens fields)

/-- The tokens of a type-system definition. -/
def TypeSystemDefinition.tokens (definition : TypeSystemDefinition) : List Token :=
  descriptionTokens definition.description? ++ definition.bodyTokens

/-- The tokens of the definition of a directive. -/
def DirectiveDefinition.tokens (definition : DirectiveDefinition) : List Token :=
  descriptionTokens definition.description ++
    .name "directive" :: .punctuator .atSign :: .name definition.name ::
      (argumentDefinitionTokens definition.arguments ++
        ((if definition.repeatable then [.name "repeatable"] else []) ++
          .name "on" :: separatedTokens .pipe definition.locations))

/-- The tokens of a definition. -/
def Definition.tokens : Definition → List Token
  | shorthand selections => selectionTokens selections
  | operation definition => definition.tokens
  | fragment definition => definition.tokens
  | typeSystem definition => definition.tokens
  | directive definition => definition.tokens
  | extension addition => .name "extend" :: addition.bodyTokens

end GraphQLCanon.Grammar
