import GraphQLCanon.Lexical.QuotedString
import GraphQLCanon.Lexical.BlockString

/-!
# Values and types of a source document

What may stand as an argument or a default, and what may stand as a type. Both
have one written form, without line breaks except those inside block strings.
-/

namespace GraphQLCanon.Grammar

/-- A value literal. Numbers keep their spelling, strings their form. -/
inductive Value
  | variableRef (name : String)
  | int (text : String)
  | float (text : String)
  | string (value : String)
  | blockString (value : String)
  | boolean (value : Bool)
  | null
  | enum (name : String)
  | list (items : List Value)
  | object (fields : List (String × Value))
  deriving Repr

mutual

/-- The written form of a value. -/
def Value.write : Value → String
  | .variableRef name => "$" ++ name
  | .int text => text
  | .float text => text
  | .string value => Lexical.QuotedString.write value
  | .blockString value => Lexical.BlockString.write value
  | .boolean value => if value then "true" else "false"
  | .null => "null"
  | .enum name => name
  | .list items => "[" ++ ", ".intercalate (Value.writeItems items) ++ "]"
  | .object fields => "\x7b" ++ ", ".intercalate (Value.writeFields fields) ++ "\x7d"

/-- The written forms of the items of a list value. -/
def Value.writeItems : List Value → List String
  | [] => []
  | item :: items => item.write :: Value.writeItems items

/-- The written forms of the fields of an object value. -/
def Value.writeFields : List (String × Value) → List String
  | [] => []
  | (name, value) :: fields => (name ++ ": " ++ value.write) :: Value.writeFields fields

end

/-- Items are written one by one. -/
theorem Value.writeItems_eq_map (items : List Value) :
    Value.writeItems items = items.map Value.write := by
  induction items with
  | nil => rfl
  | cons item items inductionHypothesis => simp [Value.writeItems, inductionHypothesis]

/-- Fields are written one by one, each as its name and its value. -/
theorem Value.writeFields_eq_map (fields : List (String × Value)) :
    Value.writeFields fields = fields.map fun field => field.1 ++ ": " ++ field.2.write := by
  induction fields with
  | nil => rfl
  | cons field fields inductionHypothesis => simp [Value.writeFields, inductionHypothesis]

/-- A reference to a type. -/
inductive TypeReference
  | named (name : String)
  | list (item : TypeReference)
  | nonNull (type : TypeReference)
  deriving DecidableEq, Repr

/-- The written form of a type reference. -/
def TypeReference.write : TypeReference → String
  | named name => name
  | list item => "[" ++ item.write ++ "]"
  | nonNull type => type.write ++ "!"

end GraphQLCanon.Grammar
