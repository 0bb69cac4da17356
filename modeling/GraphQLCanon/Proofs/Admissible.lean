import GraphQLCanon.Grammar.Definition
import GraphQLCanon.Grammar.Parser.TypeSystem

/-!
# What the grammar admits

Not every value of the types of a source document can be read from a text: nesting
is limited, constants hold no variables, some names are reserved, and a list that
is opened is not empty. The predicates say so for each part of a definition, with
the number of brackets that may still be opened.
-/

namespace GraphQLCanon.Grammar

/-- The names that are literals of other kinds. -/
def literalNames : List String := ["true", "false", "null"]

/-- A value that can be written with so many brackets still to be opened. -/
inductive Value.Fits (constant : Bool) : Nat → Value → Prop
  | variableRef {allowance : Nat} (name : String) (free : constant = false) :
    Fits constant allowance (.variableRef name)
  | int {allowance : Nat} (text : String) : Fits constant allowance (.int text)
  | float {allowance : Nat} (text : String) : Fits constant allowance (.float text)
  | string {allowance : Nat} (value : String) : Fits constant allowance (.string value)
  | blockString {allowance : Nat} (value : String) : Fits constant allowance (.blockString value)
  | boolean {allowance : Nat} (value : Bool) : Fits constant allowance (.boolean value)
  | null {allowance : Nat} : Fits constant allowance .null
  | enum {allowance : Nat} (name : String) (free : name ∉ literalNames) :
    Fits constant allowance (.enum name)
  | list {inner : Nat} (items : List Value) (fits : ∀ item ∈ items, Fits constant inner item) :
    Fits constant (inner + 1) (.list items)
  | object {inner : Nat} (fields : List (String × Value))
    (fits : ∀ field ∈ fields, Fits constant inner field.2) :
    Fits constant (inner + 1) (.object fields)

/-- A type reference that can be written with so many brackets still to be opened.
One exclamation mark at most stands behind a type. -/
inductive TypeReference.Fits : Nat → TypeReference → Prop
  | named {allowance : Nat} (name : String) : Fits allowance (.named name)
  | list {inner : Nat} (item : TypeReference) (fits : Fits inner item) :
    Fits (inner + 1) (.list item)
  | nonNull {allowance : Nat} (type : TypeReference) (nullable : ∀ inner, type ≠ .nonNull inner)
    (fits : Fits allowance type) : Fits allowance (.nonNull type)

/-- The values of arguments fit. -/
def ArgumentsFit (constant : Bool) (allowance : Nat) (arguments : List (String × Value)) : Prop :=
  ∀ argument ∈ arguments, argument.2.Fits constant allowance

/-- The arguments of directives fit. -/
def DirectivesFit (constant : Bool) (allowance : Nat) (directives : List Directive) : Prop :=
  ∀ directive ∈ directives, ArgumentsFit constant allowance directive.arguments

/-- A selection that can be written with so many brackets still to be opened. -/
inductive Selection.Fits : Nat → Selection → Prop
  | leaf {allowance : Nat} (aliasName : Option String) (name : String)
    (arguments : List (String × Value)) (directives : List Directive)
    (argumentsFit : ArgumentsFit false allowance arguments)
    (directivesFit : DirectivesFit false allowance directives) :
    Fits allowance (.field aliasName name arguments directives [])
  | branch {inner : Nat} (aliasName : Option String) (name : String)
    (arguments : List (String × Value)) (directives : List Directive)
    (selections : List Selection)
    (argumentsFit : ArgumentsFit false (inner + 1) arguments)
    (directivesFit : DirectivesFit false (inner + 1) directives)
    (nonempty : selections ≠ []) (fits : ∀ selection ∈ selections, Fits inner selection) :
    Fits (inner + 1) (.field aliasName name arguments directives selections)
  | spread {allowance : Nat} (name : String) (directives : List Directive) (free : name ≠ "on")
    (directivesFit : DirectivesFit false allowance directives) :
    Fits allowance (.spread name directives)
  | inline {inner : Nat} (typeCondition : Option String) (directives : List Directive)
    (selections : List Selection)
    (directivesFit : DirectivesFit false (inner + 1) directives)
    (nonempty : selections ≠ []) (fits : ∀ selection ∈ selections, Fits inner selection) :
    Fits (inner + 1) (.inline typeCondition directives selections)

/-- A selection set that can be written with so many brackets still to be opened,
its own among them. -/
def SelectionsFit (allowance : Nat) (selections : List Selection) : Prop :=
  selections ≠ [] ∧ ∃ inner, allowance = inner + 1 ∧
    ∀ selection ∈ selections, selection.Fits inner

open GraphQLCanon.Grammar.Parser (nestingLimit)

/-- The default of a variable or input value fits, if there is one. -/
def DefaultFits (default : Option Value) : Prop :=
  ∀ value, default = some value → value.Fits true nestingLimit

/-- The definition of a variable that can be written. -/
structure VariableDefinition.Fits (definition : VariableDefinition) : Prop where
  type : definition.type.Fits nestingLimit
  default : DefaultFits definition.default
  directives : DirectivesFit true nestingLimit definition.directives

/-- An operation that can be written. -/
structure OperationDefinition.Fits (definition : OperationDefinition) : Prop where
  variableDefinitions : ∀ entry ∈ definition.variableDefinitions, entry.Fits
  directives : DirectivesFit false nestingLimit definition.directives
  selections : SelectionsFit nestingLimit definition.selections

/-- A fragment that can be written. -/
structure FragmentDefinition.Fits (definition : FragmentDefinition) : Prop where
  name : definition.name ≠ "on"
  directives : DirectivesFit false nestingLimit definition.directives
  selections : SelectionsFit nestingLimit definition.selections

/-- An argument definition or input field that can be written. -/
structure InputValueDefinition.Fits (definition : InputValueDefinition) : Prop where
  type : definition.type.Fits nestingLimit
  default : DefaultFits definition.default
  directives : DirectivesFit true nestingLimit definition.directives

/-- A field definition that can be written. -/
structure FieldDefinition.Fits (definition : FieldDefinition) : Prop where
  arguments : ∀ argument ∈ definition.arguments, argument.Fits
  type : definition.type.Fits nestingLimit
  directives : DirectivesFit true nestingLimit definition.directives

/-- An enum value that can be written. -/
structure EnumValueDefinition.Fits (definition : EnumValueDefinition) : Prop where
  name : definition.name ∉ literalNames
  directives : DirectivesFit true nestingLimit definition.directives

/-- The parts of a type-system definition or extension can be written. -/
def TypeSystemDefinition.PartsFit : TypeSystemDefinition → Prop
  | schema _ directives _ => DirectivesFit true nestingLimit directives
  | scalar _ _ directives => DirectivesFit true nestingLimit directives
  | object _ _ _ directives fields =>
    DirectivesFit true nestingLimit directives ∧ ∀ field ∈ fields, field.Fits
  | interface _ _ _ directives fields =>
    DirectivesFit true nestingLimit directives ∧ ∀ field ∈ fields, field.Fits
  | union _ _ directives _ => DirectivesFit true nestingLimit directives
  | enum _ _ directives values =>
    DirectivesFit true nestingLimit directives ∧ ∀ value ∈ values, value.Fits
  | inputObject _ _ directives fields =>
    DirectivesFit true nestingLimit directives ∧ ∀ field ∈ fields, field.Fits

/-- The root operations of a schema are as they have to be. Other definitions have
none. -/
def TypeSystemDefinition.RootsIn (valid : List (OperationType × String) → Prop) :
    TypeSystemDefinition → Prop
  | schema _ _ roots => valid roots
  | _ => True

/-- A directive definition that can be written. -/
structure DirectiveDefinition.Fits (definition : DirectiveDefinition) : Prop where
  arguments : ∀ argument ∈ definition.arguments, argument.Fits
  some? : definition.locations ≠ []
  locations : ∀ location ∈ definition.locations, location ∈ Parser.directiveLocations

/-- True of operations and fragments. -/
def Definition.isExecutable : Definition → Bool
  | shorthand _ | operation _ | fragment _ => true
  | _ => false

/-- A definition that can be written. -/
def Definition.Fits : Definition → Prop
  | shorthand selections => SelectionsFit nestingLimit selections
  | operation definition => definition.Fits
  | fragment definition => definition.Fits
  | typeSystem definition => definition.PartsFit ∧ definition.RootsIn (· ≠ [])
  | directive definition => definition.Fits
  | extension addition => addition.PartsFit ∧ Parser.isVoid addition = false

end GraphQLCanon.Grammar
