import GraphQLCanon.Proofs.TokenForm
import GraphQLCanon.Proofs.WovenTexts

/-!
# Written values and types

The written form of a value, a type or a list of named values is woven from its tokens,
so it spells them. Items of lists are parted by a comma and a space, which add nothing;
names are also parted by signs.
-/

namespace GraphQLCanon.Grammar

open GraphQLCanon.Lexical

/-- All tokens of a list are read from some text. -/
def AllLegible (tokens : List Token) : Prop := ∀ token ∈ tokens, token.Legible

@[simp]
theorem allLegible_nil : AllLegible [] := by simp [AllLegible]

@[simp]
theorem allLegible_cons (token : Token) (tokens : List Token) :
    AllLegible (token :: tokens) ↔ token.Legible ∧ AllLegible tokens := by
  simp [AllLegible]

@[simp]
theorem allLegible_append (left right : List Token) :
    AllLegible (left ++ right) ↔ AllLegible left ∧ AllLegible right := by
  simp only [AllLegible, List.mem_append]
  grind

@[simp]
theorem allLegible_flatMap {α : Type} (shown : α → List Token) (items : List α) :
    AllLegible (items.flatMap shown) ↔ ∀ item ∈ items, AllLegible (shown item) := by
  simp only [AllLegible, List.mem_flatMap]
  grind

/-- The signs around items are always legible. -/
@[simp]
theorem allLegible_enclosedTokens {α : Type} (opening closing : Punctuator)
    (shown : α → List Token) (items : List α) :
    AllLegible (enclosedTokens opening closing shown items) ↔
      ∀ item ∈ items, AllLegible (shown item) := by
  cases items with
  | nil => simp [enclosedTokens]
  | cons first others => simp [enclosedTokens, legible_punctuator]

/-- A property of values holds of all when it holds of each whose parts have it. -/
theorem Value.induct {motive : Value → Prop}
    (leaf : ∀ value, (∀ items, value ≠ .list items) → (∀ fields, value ≠ .object fields) →
      motive value)
    (list : ∀ items, (∀ item ∈ items, motive item) → motive (.list items))
    (object : ∀ fields, (∀ field ∈ fields, motive field.2) → motive (.object fields)) :
    ∀ value, motive value := by
  intro value
  refine @Value.rec motive (fun items => ∀ item ∈ items, motive item)
    (fun fields => ∀ field ∈ fields, motive field.2) (fun field => motive field.2)
    ?_ ?_ ?_ ?_ ?_ ?_ ?_ ?_ list object ?_ ?_ ?_ ?_ ?_ value
  · exact fun name => leaf _ (by simp) (by simp)
  · exact fun text => leaf _ (by simp) (by simp)
  · exact fun text => leaf _ (by simp) (by simp)
  · exact fun text => leaf _ (by simp) (by simp)
  · exact fun text => leaf _ (by simp) (by simp)
  · exact fun truth => leaf _ (by simp) (by simp)
  · exact leaf _ (by simp) (by simp)
  · exact fun name => leaf _ (by simp) (by simp)
  · simp
  · intro first others firstHolds othersHold
    simpa using ⟨firstHolds, othersHold⟩
  · simp
  · intro first others firstHolds othersHold
    simpa using ⟨firstHolds, by simpa using othersHold⟩
  · exact fun name value holds => holds

/-- A comma and a space add nothing. -/
theorem closes_comma : Closes ", ".toList [] := closes_separators (by decide)

/-- A space adds nothing. -/
theorem closes_space : Closes " ".toList [] := closes_separators (by decide)

/-- Items that a separator parts spell their tokens, and between them those of the
separator. -/
theorem spells_intercalate {α : Type} {separator : String} {between : List Token}
    (closes : Closes separator.toList between) (delimited : Delimited separator.toList)
    (nonempty : separator.toList ≠ []) {write : α → String} {shown : α → List Token}
    {items : List α} (each : ∀ item ∈ items, Spells (write item).toList (shown item)) :
    Spells (separator.intercalate (items.map write)).toList
      (between.intercalate (items.map shown)) := by
  induction items with
  | nil => exact closes_nil.spells
  | cons first others inductionHypothesis =>
    have one := each first List.mem_cons_self
    cases others with
    | nil => simpa using one
    | cons second others =>
      have more := inductionHypothesis fun item inside => each item (List.mem_cons_of_mem _ inside)
      have behind := closes.append_spells more
      have whole := one.append behind (delimited.append_of_ne_nil nonempty _)
      rw [List.map_cons, List.map_cons, String.intercalate_cons_cons, String.append_assoc,
        String.toList_append, String.toList_append, List.map_cons, List.map_cons,
        List.intercalate_cons_cons, List.append_assoc]
      exact whole

/-- Lists with nothing between them stand one after another. -/
theorem intercalate_nil_map {α β : Type} (shown : α → List β) (items : List α) :
    ([] : List β).intercalate (items.map shown) = items.flatMap shown := by
  induction items with
  | nil => rfl
  | cons first others inductionHypothesis =>
    cases others with
    | nil => simp
    | cons second others =>
      rw [List.map_cons] at inductionHypothesis
      rw [List.map_cons, List.map_cons, List.intercalate_cons_cons, inductionHypothesis,
        List.append_nil, ← List.flatMap_cons]

/-- Items that nothing but separators parts spell their tokens one after another. -/
theorem spells_parted {α : Type} {separator : String} (closes : Closes separator.toList [])
    (delimited : Delimited separator.toList) (nonempty : separator.toList ≠ [])
    {write : α → String} {shown : α → List Token} {items : List α}
    (each : ∀ item ∈ items, Spells (write item).toList (shown item)) :
    Spells (separator.intercalate (items.map write)).toList (items.flatMap shown) := by
  rw [← intercalate_nil_map]
  exact spells_intercalate closes delimited nonempty each

/-- Items that a comma parts spell their tokens one after another. -/
theorem spells_commas {α : Type} {write : α → String} {shown : α → List Token} {items : List α}
    (each : ∀ item ∈ items, Spells (write item).toList (shown item)) :
    Spells (", ".intercalate (items.map write)).toList (items.flatMap shown) :=
  spells_parted closes_comma (by decide) (by decide) each

/-- A name that is a legible token spells it. -/
theorem spells_name {name : String} (legible : (Token.name name).Legible) :
    Spells name.toList [.name name] :=
  spells_token legible

/-- The sign that sets off a default adds itself. -/
theorem closes_equals : Closes " = ".toList [.punctuator .equals] :=
  (closes_space.append (closes_punctuator .equals)).append closes_space

section Woven

variable {text : List Char} {tokens : List Token}

/-- A sign in front of what is woven. -/
theorem woven_signed (sign : Punctuator) (woven : Woven text tokens) :
    Woven (sign.spelling.toList ++ text) (.punctuator sign :: tokens) :=
  (Woven.sign sign).append woven [] rfl (.inl ⟨sign, rfl⟩)

/-- A sign and a space in front of what is woven. -/
theorem woven_spaced (sign : Punctuator) (woven : Woven text tokens) :
    Woven (sign.spelling.toList ++ ([' '] ++ text)) (.punctuator sign :: tokens) :=
  (Woven.sign sign).append woven [' '] rfl (.inl ⟨sign, rfl⟩)

/-- A name and a space in front of what is woven. -/
theorem woven_word {name : String} (named : (Token.name name).Legible)
    (woven : Woven text tokens) :
    Woven (name.toList ++ ([' '] ++ text)) (.name name :: tokens) := by
  have delimited : Delimited ([' '] ++ text) := .append_of_ne_nil (by decide) (by decide) _
  exact (Woven.token named).append woven [' '] rfl (.inr delimited)

/-- What is woven between two signs. -/
theorem woven_enclosed (opening closing : Punctuator)
    (delimited : Delimited closing.spelling.toList) (woven : Woven text tokens) :
    Woven (opening.spelling.toList ++ (text ++ closing.spelling.toList))
      (.punctuator opening :: (tokens ++ [.punctuator closing])) :=
  woven_signed opening (woven.append (Woven.sign closing) [] rfl (.inr delimited))

/-- A name with a colon behind it in front of what is woven. -/
theorem woven_label {name : String} (named : (Token.name name).Legible)
    (woven : Woven text tokens) :
    Woven (name.toList ++ (": ".toList ++ text)) (.name name :: .punctuator .colon :: tokens) := by
  have delimited : Delimited (Punctuator.colon.spelling.toList ++ ([' '] ++ text)) :=
    .append_of_ne_nil (by decide) (by decide) _
  exact (Woven.token named).append (woven_spaced .colon woven) [] rfl (.inr delimited)

/-- Items that a separator parts are woven when the separator can stand between any two of
them. -/
theorem woven_intercalate {α : Type} {separator : String} {between : List Token}
    (joins : ∀ {left right : List Char} {before behind : List Token}, Woven left before →
      Woven right behind →
        Woven (left ++ (separator.toList ++ right)) (before ++ (between ++ behind)))
    {write : α → String} {shown : α → List Token} {items : List α} (nonempty : items ≠ [])
    (each : ∀ item ∈ items, Woven (write item).toList (shown item)) :
    Woven (separator.intercalate (items.map write)).toList
      (between.intercalate (items.map shown)) := by
  induction items with
  | nil => exact absurd rfl nonempty
  | cons first others inductionHypothesis =>
    have one := each first List.mem_cons_self
    cases others with
    | nil => simpa using one
    | cons second others =>
      have more := inductionHypothesis (by simp) fun item inside =>
        each item (List.mem_cons_of_mem _ inside)
      rw [List.map_cons, List.map_cons, String.intercalate_cons_cons, String.append_assoc,
        String.toList_append, String.toList_append, List.map_cons, List.map_cons,
        List.intercalate_cons_cons, List.append_assoc]
      exact joins one more

/-- Items that a comma parts are woven. -/
theorem woven_commas {α : Type} {write : α → String} {shown : α → List Token} {items : List α}
    (nonempty : items ≠ []) (each : ∀ item ∈ items, Woven (write item).toList (shown item)) :
    Woven (", ".intercalate (items.map write)).toList (items.flatMap shown) := by
  rw [← intercalate_nil_map]
  refine woven_intercalate (fun {left right before behind} one two => ?_) nonempty each
  have delimited : Delimited (", ".toList ++ right) :=
    .append_of_ne_nil (by decide) (by decide) _
  exact one.append two ", ".toList rfl (.inr delimited)

/-- A named value is woven when its value is. -/
theorem woven_named {field : String × Value} (named : (Token.name field.1).Legible)
    (valued : Woven field.2.write.toList field.2.tokens) :
    Woven (field.1 ++ ": " ++ field.2.write).toList (namedTokens field) := by
  rw [String.append_assoc, String.toList_append, String.toList_append]
  exact woven_label named valued

/-- The written form of a value is woven from its tokens. -/
theorem woven_value (value : Value) (legible : AllLegible value.tokens) :
    Woven value.write.toList value.tokens := by
  induction value using Value.induct with
  | leaf value noList noObject =>
    cases value with
    | variableRef name =>
      simp only [Value.tokens, allLegible_cons] at legible
      rw [Value.write, String.toList_append]
      exact woven_signed .dollar (.token legible.2.1)
    | int text | float text | enum text =>
      simp only [Value.tokens, allLegible_cons] at legible
      exact .token legible.1
    | boolean truth =>
      simp only [Value.tokens, allLegible_cons] at legible
      exact .token legible.1
    | null =>
      simp only [Value.tokens, allLegible_cons] at legible
      exact .token legible.1
    | string text =>
      simp only [Value.tokens, allLegible_cons] at legible
      rw [Value.write, QuotedString.write, String.toList_ofList]
      exact .token legible.1
    | blockString text =>
      simp only [Value.tokens, allLegible_cons] at legible
      rw [Value.write, BlockString.write, String.toList_ofList]
      exact .token legible.1
    | list items => exact absurd rfl (noList items)
    | object fields => exact absurd rfl (noObject fields)
  | list items inductionHypothesis =>
    simp only [Value.tokens, Value.tokensEach_eq_flatMap, allLegible_cons, allLegible_append,
      allLegible_flatMap] at legible
    rw [Value.write, Value.writeItems_eq_map, Value.tokens, Value.tokensEach_eq_flatMap,
      String.append_assoc, String.toList_append, String.toList_append]
    cases items with
    | nil => exact woven_signed .openBracket (Woven.sign .closeBracket)
    | cons first others =>
      have inner := woven_commas (List.cons_ne_nil first others) fun item inside =>
        inductionHypothesis item inside (legible.2.1 item inside)
      exact woven_enclosed .openBracket .closeBracket (by decide) inner
  | object fields inductionHypothesis =>
    simp only [Value.tokens, Value.tokensFields_eq_flatMap, allLegible_cons, allLegible_append,
      allLegible_flatMap, namedTokens] at legible
    rw [Value.write, Value.writeFields_eq_map, Value.tokens, Value.tokensFields_eq_flatMap,
      String.append_assoc, String.toList_append, String.toList_append]
    cases fields with
    | nil => exact woven_signed .openBrace (Woven.sign .closeBrace)
    | cons first others =>
      have inner := woven_commas (List.cons_ne_nil first others) fun field inside =>
        have entry := legible.2.1 field inside
        woven_named entry.1 (inductionHypothesis field inside entry.2.2)
      exact woven_enclosed .openBrace .closeBrace (by decide) inner

/-- The written form of a type reference is woven from its tokens. -/
theorem woven_type (type : TypeReference) (legible : AllLegible type.tokens) :
    Woven type.write.toList type.tokens := by
  induction type with
  | named name =>
    simp only [TypeReference.tokens, allLegible_cons] at legible
    exact .token legible.1
  | list item inductionHypothesis =>
    simp only [TypeReference.tokens, allLegible_cons, allLegible_append] at legible
    rw [TypeReference.write, String.append_assoc, String.toList_append, String.toList_append]
    exact woven_enclosed .openBracket .closeBracket (by decide) (inductionHypothesis legible.2.1)
  | nonNull type inductionHypothesis =>
    simp only [TypeReference.tokens, allLegible_append] at legible
    rw [TypeReference.write, String.toList_append]
    exact (inductionHypothesis legible.1).append (Woven.sign .bang) [] rfl (.inr (by decide))

/-- A name, a type and perhaps a default are woven from their tokens. -/
theorem woven_typed {name : String} {type : TypeReference} {default : Option Value}
    (named : (Token.name name).Legible) (typed : AllLegible type.tokens)
    (given : AllLegible (defaultTokens default)) :
    Woven (name ++ ": " ++ type.write ++
      match default.map Value.write with
      | none => ""
      | some value => " = " ++ value).toList
      (.name name :: .punctuator .colon :: (type.tokens ++ defaultTokens default)) := by
  have front := woven_label named (woven_type type typed)
  cases default with
  | none => simpa [defaultTokens, String.append_assoc] using front
  | some value =>
    simp only [defaultTokens, allLegible_cons] at given
    have back := woven_spaced .equals (woven_value value given.2)
    have delimited : Delimited ([' '] ++ (Punctuator.equals.spelling.toList ++
        ([' '] ++ value.write.toList))) := .append_of_ne_nil (by decide) (by decide) _
    have whole := front.append back [' '] rfl (.inr delimited)
    simpa [String.append_assoc, defaultTokens, Punctuator.spelling] using whole

/-- The tokens of parted names are the names with the sign between them. -/
theorem separatedTokens_eq_intercalate (sign : Punctuator) (names : List String) :
    separatedTokens sign names =
      [Token.punctuator sign].intercalate (names.map fun name => [.name name]) := by
  induction names with
  | nil => rfl
  | cons first others inductionHypothesis =>
    cases others with
    | nil => rfl
    | cons second others =>
      rw [separatedTokens, inductionHypothesis]
      · rfl
      · simp

/-- Names that a sign between spaces parts are woven from themselves and the sign. -/
theorem woven_separated {sign : Punctuator} {separator : String}
    (spelled : separator.toList = [' '] ++ (sign.spelling.toList ++ [' '])) {names : List String}
    (nonempty : names ≠ []) (legible : ∀ name ∈ names, (Token.name name).Legible) :
    Woven (separator.intercalate names).toList (separatedTokens sign names) := by
  have parted := @woven_intercalate String separator [.punctuator sign]
    (fun {left right before behind} one two => by
      have delimited : Delimited ([' '] ++ (sign.spelling.toList ++ ([' '] ++ right))) :=
        .append_of_ne_nil (by decide) (by decide) _
      have whole := one.append (woven_spaced sign two) [' '] rfl (.inr delimited)
      simpa [spelled] using whole) id (fun name => [.name name]) names nonempty
    fun name inside => .token (legible name inside)
  rw [List.map_id] at parted
  rw [separatedTokens_eq_intercalate]
  exact parted

end Woven

end GraphQLCanon.Grammar
