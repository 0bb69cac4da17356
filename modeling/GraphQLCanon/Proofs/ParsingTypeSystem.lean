import GraphQLCanon.Proofs.ParsingExecutables

/-!
# Parsing type-system definitions

The bodies of definitions and extensions are parsed from the tokens that write
them. Most kinds share a shape: a name, directives and a list. A body need not end
with a closing sign, so it is taken back only in front of tokens that do not
prolong it.
-/

namespace GraphQLCanon.Grammar.Parser

open GraphQLCanon.Lexical

variable {tokens rest : List Token}

/-- The name, interfaces, directives and fields of an object type or interface. -/
def compositeBehind (build : String → List String → List Directive → List FieldDefinition →
    TypeSystemDefinition) : Parser TypeSystemDefinition := do
  let typeName ← name
  let interfaces ← implementedInterfaces
  let typeDirectives ← directives true nestingLimit
  return build typeName interfaces typeDirectives (← fieldDefinitions)

/-- The name and directives of a type, and a list behind them. -/
def listedBehind {α : Type} (items : Parser (List α))
    (build : String → List Directive → List α → TypeSystemDefinition) :
    Parser TypeSystemDefinition := do
  let typeName ← name
  let typeDirectives ← directives true nestingLimit
  return build typeName typeDirectives (← items)

section Soundness

/-- An input value that was parsed fits, and was written by the tokens taken. -/
theorem inputValueDefinition_sound :
    Sound inputValueDefinition InputValueDefinition.tokens InputValueDefinition.Fits
      InputValueDefinition.descriptions := by
  intro tokens result rest taken
  unfold inputValueDefinition at taken
  obtain ⟨description, first, described, further⟩ := bind_eq_ok.1 taken
  obtain ⟨-, descriptionTaken⟩ := optionalDescription_sound described
  obtain ⟨valueName, second, named, further⟩ := bind_eq_ok.1 further
  obtain ⟨_, third, parted, further⟩ := bind_eq_ok.1 further
  obtain ⟨type, default, directives, rfl, typeFits, defaultFits, directivesFit, behind⟩ :=
    typedBehind_sound (InputValueDefinition.mk description valueName) further
  rw [name_eq_ok named, expect_eq_ok parted] at descriptionTaken
  exact ⟨⟨typeFits, defaultFits, directivesFit⟩,
    descriptionTaken.trans_plain ((behind.cons _).cons _)⟩

/-- Argument definitions that were parsed fit, and were written by the tokens
taken. -/
theorem argumentDefinitions_sound :
    Sound argumentDefinitions argumentDefinitionTokens
      (fun definitions => ∀ definition ∈ definitions, definition.Fits)
      (·.flatMap InputValueDefinition.descriptions) :=
  optionallyEnclosed_sound inputValueDefinition_sound _ _

/-- A field definition that was parsed fits, and was written by the tokens taken. -/
theorem fieldDefinition_sound :
    Sound fieldDefinition FieldDefinition.tokens FieldDefinition.Fits
      FieldDefinition.descriptions := by
  intro tokens result rest taken
  unfold fieldDefinition at taken
  obtain ⟨description, first, described, further⟩ := bind_eq_ok.1 taken
  obtain ⟨-, descriptionTaken⟩ := optionalDescription_sound described
  obtain ⟨fieldName, second, named, further⟩ := bind_eq_ok.1 further
  obtain ⟨arguments, third, several, further⟩ := bind_eq_ok.1 further
  obtain ⟨argumentsFit, argumentsTaken⟩ := argumentDefinitions_sound several
  obtain ⟨_, fourth, parted, further⟩ := bind_eq_ok.1 further
  obtain ⟨type, fifth, typed, further⟩ := bind_eq_ok.1 further
  obtain ⟨typeFits, typeTaken⟩ := typeReference_sound nestingLimit typed
  obtain ⟨results, last, applied, done⟩ := bind_eq_ok.1 further
  obtain ⟨rfl, rfl⟩ := pure_eq_ok.1 done
  obtain ⟨resultsFit, resultsTaken⟩ := directives_sound true nestingLimit applied
  rw [name_eq_ok named] at descriptionTaken
  rw [expect_eq_ok parted] at argumentsTaken
  exact ⟨⟨argumentsFit, typeFits, resultsFit⟩, descriptionTaken.trans
    ((argumentsTaken.trans_plain ((typeTaken.trans resultsTaken).cons _)).cons _)⟩

/-- An enum value that was parsed fits, and was written by the tokens taken. -/
theorem enumValueDefinition_sound :
    Sound enumValueDefinition EnumValueDefinition.tokens EnumValueDefinition.Fits
      EnumValueDefinition.descriptions := by
  intro tokens result rest taken
  unfold enumValueDefinition at taken
  obtain ⟨description, first, described, further⟩ := bind_eq_ok.1 taken
  obtain ⟨-, descriptionTaken⟩ := optionalDescription_sound described
  obtain ⟨_, _, peeked, onward⟩ := bind_eq_ok.1 further
  cases peeked
  cases first with
  | nil =>
    cases onward
  | cons token others =>
    by_cases reserved : token.text? ∈ [some "true", some "false", some "null"]
    · simp only [List.head?_cons, if_pos reserved] at onward
      cases onward
    · simp only [List.head?_cons, if_neg reserved] at onward
      obtain ⟨valueName, middle, named, onward⟩ := bind_eq_ok.1 onward
      obtain ⟨results, last, applied, done⟩ := bind_eq_ok.1 onward
      obtain ⟨rfl, rfl⟩ := pure_eq_ok.1 done
      obtain ⟨resultsFit, resultsTaken⟩ := directives_sound true nestingLimit applied
      have spelled := name_eq_ok named
      have free : valueName ∉ literalNames := by
        cases spelled
        simpa [literalNames, Token.text?] using reserved
      rw [spelled] at descriptionTaken
      exact ⟨⟨free, resultsFit⟩, descriptionTaken.trans_plain (resultsTaken.cons _)⟩

/-- A root operation was written by the tokens taken. -/
theorem rootOperation_sound : Sound rootOperation rootTokens (fun _ => True) := by
  intro tokens result rest taken
  unfold rootOperation at taken
  obtain ⟨operation, first, typed, further⟩ := bind_eq_ok.1 taken
  obtain ⟨_, second, parted, further⟩ := bind_eq_ok.1 further
  obtain ⟨type, last, named, done⟩ := bind_eq_ok.1 further
  obtain ⟨rfl, rfl⟩ := pure_eq_ok.1 done
  rw [operationType_eq_ok typed, expect_eq_ok parted, name_eq_ok named]
  exact ⟨trivial, ((Takes.one _ _).cons _).cons _⟩

/-- A name was written by the token taken. -/
theorem name_sound : Sound name (fun text => [.name text]) (fun _ => True) := by
  intro tokens text rest taken
  rw [name_eq_ok taken]
  exact ⟨trivial, Takes.one _ _⟩

/-- Implemented interfaces were written by the tokens taken. -/
theorem implementedInterfaces_sound :
    Sound implementedInterfaces interfaceTokens (fun _ => True) (fun _ => [])
      (leadingSign .ampersand) := by
  intro tokens interfaces rest taken
  unfold implementedInterfaces at taken
  obtain ⟨passed, behind, looked, onward⟩ := bind_eq_ok.1 taken
  rcases skipKeyword_eq_ok looked with ⟨rfl, rfl⟩ | ⟨rfl, rfl, -⟩
  · obtain ⟨nonempty, -, written⟩ := separated_sound name_sound onward
    refine ⟨trivial, ?_⟩
    simpa [interfaceTokens, leadingSign, nonempty] using written.cons _
  · obtain ⟨rfl, rfl⟩ := pure_eq_ok.1 onward
    exact ⟨trivial, Takes.none _⟩

/-- The members of a union were written by the tokens taken. -/
theorem unionMembers_sound :
    Sound unionMembers memberTokens (fun _ => True) (fun _ => []) (leadingSign .pipe) := by
  intro tokens members rest taken
  unfold unionMembers at taken
  obtain ⟨passed, behind, looked, onward⟩ := bind_eq_ok.1 taken
  rcases skip_eq_ok looked with ⟨rfl, rfl⟩ | ⟨rfl, rfl, -⟩
  · obtain ⟨nonempty, -, written⟩ := separated_sound name_sound onward
    refine ⟨trivial, ?_⟩
    simpa [memberTokens, leadingSign, nonempty] using written.cons _
  · obtain ⟨rfl, rfl⟩ := pure_eq_ok.1 onward
    exact ⟨trivial, Takes.none _⟩

/-- The list of fields was written by the tokens taken. -/
theorem fieldDefinitions_sound :
    Sound fieldDefinitions (enclosedTokens .openBrace .closeBrace FieldDefinition.tokens)
      (fun fields => ∀ field ∈ fields, field.Fits)
      (·.flatMap FieldDefinition.descriptions) :=
  optionallyEnclosed_sound fieldDefinition_sound _ _

/-- What follows the keyword of an object type or interface was written by the tokens
taken. -/
theorem compositeBehind_sound (build : String → List String → List Directive →
      List FieldDefinition → TypeSystemDefinition) {result : TypeSystemDefinition}
    (taken : compositeBehind build tokens = .ok (result, rest)) :
    ∃ typeName interfaces directives fields,
      result = build typeName interfaces directives fields ∧
        DirectivesFit true nestingLimit directives ∧ (∀ field ∈ fields, field.Fits) ∧
          Takes tokens rest (.name typeName :: (interfaceTokens interfaces ++
            (directiveTokens directives ++
              enclosedTokens .openBrace .closeBrace FieldDefinition.tokens fields)))
            (fields.flatMap FieldDefinition.descriptions) (leadingSign .ampersand interfaces) := by
  unfold compositeBehind at taken
  obtain ⟨typeName, first, named, further⟩ := bind_eq_ok.1 taken
  obtain ⟨interfaces, second, implemented, further⟩ := bind_eq_ok.1 further
  obtain ⟨-, interfacesTaken⟩ := implementedInterfaces_sound implemented
  obtain ⟨results, third, applied, further⟩ := bind_eq_ok.1 further
  obtain ⟨resultsFit, resultsTaken⟩ := directives_sound true nestingLimit applied
  obtain ⟨fields, last, several, done⟩ := bind_eq_ok.1 further
  obtain ⟨rfl, rfl⟩ := pure_eq_ok.1 done
  obtain ⟨fieldsFit, fieldsTaken⟩ := fieldDefinitions_sound several
  have written := (interfacesTaken.trans (resultsTaken.trans fieldsTaken)).cons (.name typeName)
  simp only [List.nil_append, List.append_nil] at written
  rw [name_eq_ok named]
  exact ⟨typeName, interfaces, results, fields, rfl, resultsFit, fieldsFit, written⟩

/-- What follows the keyword of a type with a list behind it was written by the tokens
taken. -/
theorem listedBehind_sound {α : Type} {items : Parser (List α)} {shown : List α → List Token}
    {valid : List α → Prop} {descriptions : List α → List String}
    {signs : List α → List Punctuator} (sound : Sound items shown valid descriptions signs)
    (build : String → List Directive → List α → TypeSystemDefinition)
    {result : TypeSystemDefinition}
    (taken : listedBehind items build tokens = .ok (result, rest)) :
    ∃ typeName directives values, result = build typeName directives values ∧
      DirectivesFit true nestingLimit directives ∧ valid values ∧
        Takes tokens rest (.name typeName :: (directiveTokens directives ++ shown values))
          (descriptions values) (signs values) := by
  unfold listedBehind at taken
  obtain ⟨typeName, first, named, further⟩ := bind_eq_ok.1 taken
  obtain ⟨results, second, applied, further⟩ := bind_eq_ok.1 further
  obtain ⟨resultsFit, resultsTaken⟩ := directives_sound true nestingLimit applied
  obtain ⟨values, last, several, done⟩ := bind_eq_ok.1 further
  obtain ⟨rfl, rfl⟩ := pure_eq_ok.1 done
  obtain ⟨valuesValid, valuesTaken⟩ := sound several
  rw [name_eq_ok named]
  exact ⟨typeName, results, values, rfl, resultsFit, valuesValid,
    (resultsTaken.trans valuesTaken).cons _⟩

/-- A body was written by the tokens taken behind the description that it was given,
and its parts fit. A schema has root operations that its parser admits. -/
def BodySound (admitted : List (OperationType × String) → Prop)
    (body : Option String → Parser TypeSystemDefinition) : Prop :=
  ∀ description, Sound (body description) TypeSystemDefinition.bodyTokens
    (fun result => (result.PartsFit ∧ result.RootsIn admitted) ∧
      result.description? = description)
    TypeSystemDefinition.partDescriptions TypeSystemDefinition.leadingSigns

variable {roots : Parser (List (OperationType × String))}
  {admitted : List (OperationType × String) → Prop}

/-- The body of a schema is sound when its root operations are. -/
theorem schemaBody_sound
    (sound : Sound roots (enclosedTokens .openBrace .closeBrace rootTokens) admitted) :
    BodySound admitted (schemaBody roots) := by
  intro description tokens result rest taken
  unfold schemaBody at taken
  obtain ⟨_, first, opened, further⟩ := bind_eq_ok.1 taken
  obtain ⟨results, second, applied, further⟩ := bind_eq_ok.1 further
  obtain ⟨resultsFit, resultsTaken⟩ := directives_sound true nestingLimit applied
  obtain ⟨entries, last, several, done⟩ := bind_eq_ok.1 further
  obtain ⟨rfl, rfl⟩ := pure_eq_ok.1 done
  obtain ⟨entriesAdmitted, entriesTaken⟩ := sound several
  rw [expectKeyword_eq_ok opened]
  exact ⟨⟨⟨resultsFit, entriesAdmitted⟩, rfl⟩, (resultsTaken.trans entriesTaken).cons _⟩

/-- The body of a scalar type is sound. -/
theorem scalarBody_sound : BodySound admitted scalarBody := by
  intro description tokens result rest taken
  unfold scalarBody at taken
  obtain ⟨_, first, opened, further⟩ := bind_eq_ok.1 taken
  obtain ⟨typeName, second, named, further⟩ := bind_eq_ok.1 further
  obtain ⟨results, last, applied, done⟩ := bind_eq_ok.1 further
  obtain ⟨rfl, rfl⟩ := pure_eq_ok.1 done
  obtain ⟨resultsFit, resultsTaken⟩ := directives_sound true nestingLimit applied
  rw [expectKeyword_eq_ok opened, name_eq_ok named]
  exact ⟨⟨⟨resultsFit, trivial⟩, rfl⟩, (resultsTaken.cons _).cons _⟩

/-- The body of an object type is sound. -/
theorem objectBody_sound : BodySound admitted objectBody := by
  intro description tokens result rest taken
  unfold objectBody at taken
  obtain ⟨_, first, opened, further⟩ := bind_eq_ok.1 taken
  obtain ⟨typeName, interfaces, results, fields, rfl, resultsFit, fieldsFit, written⟩ :=
    compositeBehind_sound (.object description) further
  rw [expectKeyword_eq_ok opened]
  exact ⟨⟨⟨⟨resultsFit, fieldsFit⟩, trivial⟩, rfl⟩, written.cons _⟩

/-- The body of an interface is sound. -/
theorem interfaceBody_sound : BodySound admitted interfaceBody := by
  intro description tokens result rest taken
  unfold interfaceBody at taken
  obtain ⟨_, first, opened, further⟩ := bind_eq_ok.1 taken
  obtain ⟨typeName, interfaces, results, fields, rfl, resultsFit, fieldsFit, written⟩ :=
    compositeBehind_sound (.interface description) further
  rw [expectKeyword_eq_ok opened]
  exact ⟨⟨⟨⟨resultsFit, fieldsFit⟩, trivial⟩, rfl⟩, written.cons _⟩

/-- The body of a union is sound. -/
theorem unionBody_sound : BodySound admitted unionBody := by
  intro description tokens result rest taken
  unfold unionBody at taken
  obtain ⟨_, first, opened, further⟩ := bind_eq_ok.1 taken
  obtain ⟨typeName, results, members, rfl, resultsFit, -, written⟩ :=
    listedBehind_sound unionMembers_sound (.union description) further
  rw [expectKeyword_eq_ok opened]
  exact ⟨⟨⟨resultsFit, trivial⟩, rfl⟩, written.cons _⟩

/-- The body of an enum type is sound. -/
theorem enumBody_sound : BodySound admitted enumBody := by
  intro description tokens result rest taken
  unfold enumBody at taken
  obtain ⟨_, first, opened, further⟩ := bind_eq_ok.1 taken
  obtain ⟨typeName, results, values, rfl, resultsFit, valuesFit, written⟩ :=
    listedBehind_sound (optionallyEnclosed_sound enumValueDefinition_sound _ _)
      (.enum description) further
  rw [expectKeyword_eq_ok opened]
  exact ⟨⟨⟨⟨resultsFit, valuesFit⟩, trivial⟩, rfl⟩, written.cons _⟩

/-- The body of an input object is sound. -/
theorem inputObjectBody_sound : BodySound admitted inputObjectBody := by
  intro description tokens result rest taken
  unfold inputObjectBody at taken
  obtain ⟨_, first, opened, further⟩ := bind_eq_ok.1 taken
  obtain ⟨typeName, results, fields, rfl, resultsFit, fieldsFit, written⟩ :=
    listedBehind_sound (optionallyEnclosed_sound inputValueDefinition_sound _ _)
      (.inputObject description) further
  rw [expectKeyword_eq_ok opened]
  exact ⟨⟨⟨⟨resultsFit, fieldsFit⟩, trivial⟩, rfl⟩, written.cons _⟩

/-- Every body that a keyword opens is sound when the root operations of a schema
are. -/
theorem bodyOf?_sound
    (sound : Sound roots (enclosedTokens .openBrace .closeBrace rootTokens) admitted)
    {keyword : String} {body : Option String → Parser TypeSystemDefinition}
    (opened : bodyOf? roots keyword = some body) : BodySound admitted body := by
  unfold bodyOf? at opened
  split at opened <;> cases opened
  · exact schemaBody_sound sound
  · exact scalarBody_sound
  · exact objectBody_sound
  · exact interfaceBody_sound
  · exact unionBody_sound
  · exact enumBody_sound
  · exact inputObjectBody_sound

/-- Root operations of a schema definition were written by the tokens taken. -/
theorem rootOperations_sound :
    Sound rootOperations (enclosedTokens .openBrace .closeBrace rootTokens) (· ≠ []) := by
  intro tokens roots rest taken
  obtain ⟨nonempty, -, written⟩ := enclosedSome_sound rootOperation_sound taken
  exact ⟨nonempty, written.plain⟩

/-- Root operations of a schema extension were written by the tokens taken. -/
theorem addedRootOperations_sound :
    Sound addedRootOperations (enclosedTokens .openBrace .closeBrace rootTokens)
      (fun _ => True) := by
  intro tokens roots rest taken
  exact ⟨trivial, (optionallyEnclosed_sound rootOperation_sound _ _ taken).2.plain⟩

/-- A type-system definition that was parsed fits, and was written by the tokens
taken. -/
theorem typeSystemDefinition_sound {body : Option String → Parser TypeSystemDefinition}
    (sound : BodySound admitted body) :
    Sound (typeSystemDefinition body) TypeSystemDefinition.tokens
      (fun result => result.PartsFit ∧ result.RootsIn admitted)
      TypeSystemDefinition.descriptions TypeSystemDefinition.leadingSigns := by
  intro tokens result rest taken
  unfold typeSystemDefinition at taken
  obtain ⟨description, first, described, further⟩ := bind_eq_ok.1 taken
  obtain ⟨-, descriptionTaken⟩ := optionalDescription_sound described
  obtain ⟨⟨fits, rfl⟩, written⟩ := sound description further
  exact ⟨fits, descriptionTaken.trans written⟩

/-- An extension that was parsed fits and adds something, and was written by the tokens
taken. -/
theorem extension_sound :
    Sound extension TypeSystemDefinition.bodyTokens
      (fun result => result.PartsFit ∧ isVoid result = false)
      TypeSystemDefinition.partDescriptions TypeSystemDefinition.leadingSigns := by
  intro tokens result rest taken
  unfold extension at taken
  rw [bind_of_ok (peek_eq tokens)] at taken
  cases tokens with
  | nil => cases taken
  | cons token others =>
    cases token with
    | name keyword =>
      simp only [List.head?_cons] at taken
      cases opened : bodyOf? addedRootOperations keyword with
      | none =>
        simp only [opened] at taken
        cases taken
      | some body =>
        simp only [opened] at taken
        obtain ⟨addition, behind, added, further⟩ := bind_eq_ok.1 taken
        obtain ⟨⟨⟨fits, -⟩, -⟩, written⟩ :=
          bodyOf?_sound addedRootOperations_sound opened none added
        by_cases empty : isVoid addition = true
        · rw [if_pos empty] at further
          cases further
        · rw [if_neg empty] at further
          obtain ⟨rfl, rfl⟩ := pure_eq_ok.1 further
          exact ⟨⟨fits, by simpa using empty⟩, written⟩
    | _ => cases taken

/-- A place where a directive applies was written by the token taken. -/
theorem directiveLocation_sound :
    Sound directiveLocation (fun text => [.name text]) (· ∈ directiveLocations) := by
  intro tokens location rest taken
  unfold directiveLocation at taken
  rw [bind_of_ok (get_eq tokens)] at taken
  obtain ⟨text, behind, named, further⟩ := bind_eq_ok.1 taken
  rw [name_eq_ok named]
  split at further
  · rename_i declared
    obtain ⟨rfl, rfl⟩ := pure_eq_ok.1 further
    exact ⟨declared, Takes.one _ _⟩
  · cases further

/-- A directive definition that was parsed fits, and was written by the tokens
taken. -/
theorem directiveDefinition_sound :
    Sound directiveDefinition DirectiveDefinition.tokens DirectiveDefinition.Fits
      DirectiveDefinition.descriptions (fun result => leadingSign .pipe result.locations) := by
  intro tokens result rest taken
  unfold directiveDefinition at taken
  obtain ⟨description, first, described, further⟩ := bind_eq_ok.1 taken
  obtain ⟨-, descriptionTaken⟩ := optionalDescription_sound described
  obtain ⟨_, second, opened, further⟩ := bind_eq_ok.1 further
  obtain ⟨_, third, signed, further⟩ := bind_eq_ok.1 further
  obtain ⟨directiveName, fourth, named, further⟩ := bind_eq_ok.1 further
  obtain ⟨arguments, fifth, several, further⟩ := bind_eq_ok.1 further
  obtain ⟨argumentsFit, argumentsTaken⟩ := argumentDefinitions_sound several
  obtain ⟨repeatable, sixth, looked, further⟩ := bind_eq_ok.1 further
  obtain ⟨_, seventh, parted, further⟩ := bind_eq_ok.1 further
  obtain ⟨locations, last, placed, done⟩ := bind_eq_ok.1 further
  obtain ⟨rfl, rfl⟩ := pure_eq_ok.1 done
  obtain ⟨nonempty, locationsFit, locationsTaken⟩ :=
    separated_sound directiveLocation_sound placed
  have repeatableTaken : Takes fifth sixth (if repeatable then [.name "repeatable"] else []) := by
    rcases skipKeyword_eq_ok looked with ⟨rfl, rfl⟩ | ⟨rfl, rfl, -⟩
    · exact Takes.one _ _
    · exact Takes.none _
  rw [expectKeyword_eq_ok opened, expect_eq_ok signed, name_eq_ok named] at descriptionTaken
  rw [expectKeyword_eq_ok parted] at repeatableTaken
  have written := descriptionTaken.trans
    ((((argumentsTaken.trans (repeatableTaken.trans
      (locationsTaken.cons _))).cons _).cons _).cons _)
  simp only [List.nil_append, List.append_nil] at written
  refine ⟨⟨argumentsFit, nonempty, locationsFit⟩, ?_⟩
  simpa [DirectiveDefinition.tokens, DirectiveDefinition.descriptions, leadingSign, nonempty]
    using written

end Soundness

section Completeness

/-- The tokens that would prolong a type-system definition. -/
def definitionSigns : List Token :=
  [.name "implements", .punctuator .ampersand, .punctuator .pipe, .punctuator .equals,
    .punctuator .atSign, .punctuator .openParenthesis, .punctuator .openBrace]

/-- A name behind its description is no sign. -/
theorem clear_described (signs : List Punctuator) (description : Option String) (text : String)
    (rest : List Token) :
    Clear (signs.map .punctuator) (descriptionTokens description ++ .name text :: rest) := by
  cases description <;> simp [Clear, descriptionTokens]

/-- An input value that fits is taken back, in front of anything that does not prolong
it. -/
theorem inputValueDefinition_returns {result : InputValueDefinition} (fits : result.Fits) :
    Returns inputValueDefinition result.tokens result memberSigns := by
  intro rest clear
  have behind := typedBehind_returns (InputValueDefinition.mk result.description result.name)
    fits.type fits.default fits.directives rest clear
  unfold inputValueDefinition
  rw [InputValueDefinition.tokens, List.append_assoc]
  refine (bind_of_ok
    (optionalDescription_append result.description (not_describes_name result.name _))).trans ?_
  refine (bind_of_ok (name_cons result.name _)).trans ?_
  refine (bind_of_ok (expect_cons .colon _)).trans ?_
  exact behind

/-- Input values that fit stand apart from each other. -/
theorem apart_inputValues {closing : Punctuator} (unbarred : .punctuator closing ∉ memberSigns)
    {results : List InputValueDefinition} (fit : ∀ result ∈ results, result.Fits) :
    Apart inputValueDefinition InputValueDefinition.tokens closing memberSigns results where
  unbarred := unbarred
  returned := fun result inside => inputValueDefinition_returns (fit result inside)
  begun := fun result _ rest => by
    rw [InputValueDefinition.tokens, List.append_assoc]
    exact clear_described [closing, .bang, .equals, .atSign, .openParenthesis] _ _ _

/-- Argument definitions that fit are taken back, in front of anything but others. -/
theorem argumentDefinitions_returns {results : List InputValueDefinition}
    (fit : ∀ result ∈ results, result.Fits) :
    Returns argumentDefinitions (argumentDefinitionTokens results) results
      [.punctuator .openParenthesis] :=
  optionallyEnclosed_returns (apart_inputValues (by simp [memberSigns]) fit)

/-- A field definition that fits is taken back, in front of anything that does not
prolong it. -/
theorem fieldDefinition_returns {result : FieldDefinition} (fits : result.Fits) :
    Returns fieldDefinition result.tokens result memberSigns := by
  intro rest clear
  have arguments := argumentDefinitions_returns fits.arguments
    (.punctuator .colon :: (result.type.tokens ++ (directiveTokens result.directives ++ rest)))
    (by simp [Clear])
  have unmarked : Clear [.punctuator .bang] (directiveTokens result.directives ++ rest) :=
    (clear.of_subset (by simp [memberSigns])).append (directiveTokens_begun result.directives)
      (by simp)
  have typed := typeReference_returns fits.type _ unmarked
  have directed := directives_returns fits.directives rest
    (clear.of_subset (by simp [memberSigns]))
  unfold fieldDefinition
  simp only [FieldDefinition.tokens, List.append_assoc, List.cons_append]
  refine (bind_of_ok
    (optionalDescription_append result.description (not_describes_name result.name _))).trans ?_
  refine (bind_of_ok (name_cons result.name _)).trans ?_
  refine (bind_of_ok arguments).trans ?_
  refine (bind_of_ok (expect_cons .colon _)).trans ?_
  refine (bind_of_ok typed).trans ?_
  exact bind_of_ok directed

/-- Field definitions that fit are taken back, in front of anything but others. -/
theorem fieldDefinitions_returns {results : List FieldDefinition}
    (fit : ∀ result ∈ results, result.Fits) :
    Returns fieldDefinitions (enclosedTokens .openBrace .closeBrace FieldDefinition.tokens results)
      results [.punctuator .openBrace] := by
  have apart : Apart fieldDefinition FieldDefinition.tokens .closeBrace memberSigns results := {
    unbarred := by simp [memberSigns]
    returned := fun result inside => fieldDefinition_returns (fit result inside)
    begun := fun result _ rest => by
      rw [FieldDefinition.tokens, List.append_assoc]
      exact clear_described [.closeBrace, .bang, .equals, .atSign, .openParenthesis] _ _ _ }
  exact optionallyEnclosed_returns apart

/-- An enum value that fits is taken back, in front of anything that does not prolong
it. -/
theorem enumValueDefinition_returns {result : EnumValueDefinition} (fits : result.Fits) :
    Returns enumValueDefinition result.tokens result memberSigns := by
  intro rest clear
  have directed := directives_returns fits.directives rest
    (clear.of_subset (by simp [memberSigns]))
  have unreserved : (Token.name result.name).text? ∉ [some "true", some "false", some "null"] := by
    simpa [literalNames, Token.text?] using fits.name
  unfold enumValueDefinition
  rw [EnumValueDefinition.tokens, List.append_assoc]
  refine (bind_of_ok
    (optionalDescription_append result.description (not_describes_name result.name _))).trans ?_
  refine (bind_of_ok (peek_eq _)).trans ?_
  simp only [List.head?_cons, if_neg unreserved]
  refine (bind_of_ok (name_cons result.name _)).trans ?_
  exact bind_of_ok directed

/-- Enum values that fit stand apart from each other. -/
theorem apart_enumValues {results : List EnumValueDefinition}
    (fit : ∀ result ∈ results, result.Fits) :
    Apart enumValueDefinition EnumValueDefinition.tokens .closeBrace memberSigns results where
  unbarred := by simp [memberSigns]
  returned := fun result inside => enumValueDefinition_returns (fit result inside)
  begun := fun result _ rest => by
    rw [EnumValueDefinition.tokens, List.append_assoc]
    exact clear_described [.closeBrace, .bang, .equals, .atSign, .openParenthesis] _ _ _

/-- Root operations stand apart from each other. -/
theorem apart_rootOperations (roots : List (OperationType × String)) :
    Apart rootOperation rootTokens .closeBrace [] roots where
  unbarred := by simp
  returned := fun root _ rest _ => by
    unfold rootOperation
    refine (bind_of_ok (operationType_cons root.1 _)).trans ?_
    refine (bind_of_ok (expect_cons .colon _)).trans ?_
    exact bind_of_ok (name_cons root.2 rest)
  begun := fun root _ rest => by simp [Clear, rootTokens]

/-- Root operations of a schema are taken back, in front of anything. -/
theorem rootOperations_returns {roots : List (OperationType × String)} (nonempty : roots ≠ []) :
    Returns rootOperations (enclosedTokens .openBrace .closeBrace rootTokens roots) roots [] :=
  enclosedSome_returns (apart_rootOperations roots) nonempty

/-- Implemented interfaces are taken back, in front of anything but others. -/
theorem implementedInterfaces_returns (interfaces : List String) :
    Returns implementedInterfaces (interfaceTokens interfaces) interfaces
      [.name "implements", .punctuator .ampersand] := by
  intro rest clear
  unfold implementedInterfaces
  cases interfaces with
  | nil => exact bind_of_ok (skipKeyword_of_head_ne (clear _ List.mem_cons_self))
  | cons first others =>
    refine (bind_of_ok (skipKeyword_cons "implements" _)).trans ?_
    exact separated_returns (fun text _ => name_returns text) (by simp) rest
      (clear.of_subset (by simp))

/-- Union members begin with their sign, if there are any. -/
theorem memberTokens_begun (members : List String) :
    memberTokens members = [] ∨ (memberTokens members).head? = some (.punctuator .equals) := by
  cases members with
  | nil => exact .inl rfl
  | cons first others => exact .inr rfl

/-- Union members are taken back, in front of anything but others. -/
theorem unionMembers_returns (members : List String) :
    Returns unionMembers (memberTokens members) members
      [.punctuator .equals, .punctuator .pipe] := by
  intro rest clear
  unfold unionMembers
  cases members with
  | nil => exact bind_of_ok (skip_of_head_ne (clear _ List.mem_cons_self))
  | cons first others =>
    refine (bind_of_ok (skip_cons .equals _)).trans ?_
    exact separated_returns (fun text _ => name_returns text) (by simp) rest
      (clear.of_subset (by simp))

/-- What follows the keyword of an object type or interface is taken back, in front of
anything that does not prolong it. -/
theorem compositeBehind_returns (build : String → List String → List Directive →
      List FieldDefinition → TypeSystemDefinition) (typeName : String) (interfaces : List String)
    {results : List Directive} {fields : List FieldDefinition}
    (resultsFit : DirectivesFit true nestingLimit results)
    (fieldsFit : ∀ field ∈ fields, field.Fits) :
    Returns (compositeBehind build)
      (.name typeName :: (interfaceTokens interfaces ++ (directiveTokens results ++
        enclosedTokens .openBrace .closeBrace FieldDefinition.tokens fields)))
      (build typeName interfaces results fields) definitionSigns := by
  intro rest clear
  have listed := fieldDefinitions_returns fieldsFit rest
    (clear.of_subset (by simp [definitionSigns]))
  have begun := enclosedTokens_begun .openBrace .closeBrace FieldDefinition.tokens fields
  have directed := directives_returns resultsFit
    (enclosedTokens .openBrace .closeBrace FieldDefinition.tokens fields ++ rest)
    ((clear.of_subset (by simp [definitionSigns])).append begun (by simp))
  have implemented := implementedInterfaces_returns interfaces (directiveTokens results ++
      (enclosedTokens .openBrace .closeBrace FieldDefinition.tokens fields ++ rest))
    (((clear.of_subset (by simp [definitionSigns])).append begun (by simp)).append
      (directiveTokens_begun results) (by simp))
  unfold compositeBehind
  simp only [List.cons_append, List.append_assoc]
  refine (bind_of_ok (name_cons typeName _)).trans ?_
  refine (bind_of_ok implemented).trans ?_
  refine (bind_of_ok directed).trans ?_
  exact bind_of_ok listed

/-- What follows the keyword of a type with a list behind it is taken back, in front of
anything that prolongs neither the list nor the directives. -/
theorem listedBehind_returns {α : Type} {items : Parser (List α)} {shown : List Token}
    {values : List α} {first : Token} {barred : List Token}
    (returned : Returns items shown values barred) (begun : shown = [] ∨ shown.head? = some first)
    (free : first ∉ [.punctuator .atSign, .punctuator .openParenthesis])
    (build : String → List Directive → List α → TypeSystemDefinition) (typeName : String)
    {results : List Directive} (resultsFit : DirectivesFit true nestingLimit results) :
    Returns (listedBehind items build) (.name typeName :: (directiveTokens results ++ shown))
      (build typeName results values)
      (.punctuator .atSign :: .punctuator .openParenthesis :: barred) := by
  intro rest clear
  have listed := returned rest (clear.of_subset (by simp))
  have directed := directives_returns resultsFit (shown ++ rest)
    ((clear.of_subset (by simp)).append begun free)
  unfold listedBehind
  simp only [List.cons_append, List.append_assoc]
  refine (bind_of_ok (name_cons typeName _)).trans ?_
  refine (bind_of_ok directed).trans ?_
  exact bind_of_ok listed

/-- Every definition that fits has a keyword whose body takes its tokens back, in front
of anything that does not prolong it. -/
theorem bodyOf?_returns {result : TypeSystemDefinition} (fits : result.PartsFit)
    (rooted : result.RootsIn (· ≠ [])) :
    ∃ keyword others body, result.bodyTokens = .name keyword :: others ∧
      bodyOf? rootOperations keyword = some body ∧
        Returns (body result.description?) result.bodyTokens result definitionSigns := by
  cases result with
  | schema description results roots =>
    refine ⟨"schema", _, _, rfl, rfl, fun rest clear => ?_⟩
    have nonempty : roots ≠ [] := rooted
    have listed := rootOperations_returns nonempty rest (by simp [Clear])
    have directed := directives_returns fits
      (enclosedTokens .openBrace .closeBrace rootTokens roots ++ rest)
      ((clear.of_subset (by simp [definitionSigns])).append
        (enclosedTokens_begun .openBrace .closeBrace rootTokens roots) (by simp))
    simp only [TypeSystemDefinition.bodyTokens, List.cons_append, List.append_assoc]
    refine (bind_of_ok (expectKeyword_cons "schema" _)).trans ?_
    refine (bind_of_ok directed).trans ?_
    exact bind_of_ok listed
  | scalar description name results =>
    refine ⟨"scalar", _, _, rfl, rfl, fun rest clear => ?_⟩
    have directed := directives_returns fits rest (clear.of_subset (by simp [definitionSigns]))
    refine (bind_of_ok (expectKeyword_cons "scalar" _)).trans ?_
    refine (bind_of_ok (name_cons name _)).trans ?_
    exact bind_of_ok directed
  | object description name interfaces results fields =>
    refine ⟨"type", _, _, rfl, rfl, fun rest clear => ?_⟩
    refine (bind_of_ok (expectKeyword_cons "type" _)).trans ?_
    exact compositeBehind_returns (.object description) name interfaces fits.1 fits.2 rest clear
  | interface description name interfaces results fields =>
    refine ⟨"interface", _, _, rfl, rfl, fun rest clear => ?_⟩
    refine (bind_of_ok (expectKeyword_cons "interface" _)).trans ?_
    exact compositeBehind_returns (.interface description) name interfaces fits.1 fits.2 rest clear
  | union description name results members =>
    refine ⟨"union", _, _, rfl, rfl, fun rest clear => ?_⟩
    refine (bind_of_ok (expectKeyword_cons "union" _)).trans ?_
    exact listedBehind_returns (unionMembers_returns members) (memberTokens_begun members)
      (by simp) (.union description) name fits rest (clear.of_subset (by simp [definitionSigns]))
  | enum description name results values =>
    refine ⟨"enum", _, _, rfl, rfl, fun rest clear => ?_⟩
    refine (bind_of_ok (expectKeyword_cons "enum" _)).trans ?_
    exact listedBehind_returns (optionallyEnclosed_returns (apart_enumValues fits.2))
      (enclosedTokens_begun _ _ _ values) (by simp) (.enum description) name fits.1 rest
      (clear.of_subset (by simp [definitionSigns]))
  | inputObject description name results fields =>
    refine ⟨"input", _, _, rfl, rfl, fun rest clear => ?_⟩
    refine (bind_of_ok (expectKeyword_cons "input" _)).trans ?_
    exact listedBehind_returns
      (optionallyEnclosed_returns (apart_inputValues (by simp [memberSigns]) fits.2))
      (enclosedTokens_begun _ _ _ fields) (by simp) (.inputObject description) name fits.1 rest
      (clear.of_subset (by simp [definitionSigns]))

end Completeness

end GraphQLCanon.Grammar.Parser
