import GraphQLCanon.Proofs.ParsingSelections

/-!
# Parsing operations and fragments

Operations and fragments are parsed from the tokens that write them, and taken back
whatever stands behind: both end with a selection set. A type with its default and
directives is parsed in the same way for variables and for input values.
-/

namespace GraphQLCanon.Grammar.Parser

open GraphQLCanon.Lexical

variable {tokens rest : List Token}

/-- A type, perhaps a default, and directives, as they stand behind a colon. -/
def typedBehind {α : Type} (build : TypeReference → Option Value → List Directive → α) :
    Parser α := do
  let type ← typeReference nestingLimit
  let default ←
    if ← skip .equals then some <$> value true nestingLimit else pure none
  return build type default (← directives true nestingLimit)

/-- The signs that would prolong a definition in parentheses or braces. -/
def memberSigns : List Token :=
  [.punctuator .bang, .punctuator .equals, .punctuator .atSign, .punctuator .openParenthesis]

section Soundness

/-- A description that was taken is written in front of what was taken then. -/
theorem optionalDescription_sound :
    Sound optionalDescription descriptionTokens (fun _ => True) Option.toList := by
  intro tokens found rest taken
  refine ⟨trivial, ?_⟩
  rcases optionalDescription_eq_ok taken with ⟨value, rfl, rfl | rfl⟩ | ⟨rfl, rfl⟩
  · exact ⟨[.string value], rfl, .quoted value .nil⟩
  · exact ⟨[.blockString value], rfl, .block value .nil⟩
  · exact Takes.none _

/-- A name that may be missing is written if it was taken. -/
theorem optionalName_sound : Sound optionalName nameTokens (fun _ => True) := by
  intro tokens found rest taken
  refine ⟨trivial, ?_⟩
  rcases optionalName_eq_ok taken with ⟨text, rfl, rfl⟩ | ⟨rfl, rfl⟩
  · exact Takes.one _ _
  · exact Takes.none _

/-- The keyword of the operation that a keyword names. -/
theorem keyword_of_ofKeyword? {keyword : String} {operation : OperationType}
    (named : OperationType.ofKeyword? keyword = some operation) : operation.keyword = keyword := by
  have found := List.find?_some named
  simpa using found

/-- An operation type was written as its keyword. -/
theorem operationType_eq_ok {operation : OperationType}
    (taken : operationType tokens = .ok (operation, rest)) :
    tokens = .name operation.keyword :: rest := by
  unfold operationType at taken
  rw [bind_of_ok (get_eq tokens)] at taken
  obtain ⟨keyword, middle, named, further⟩ := bind_eq_ok.1 taken
  cases typed : OperationType.ofKeyword? keyword with
  | none =>
    simp only [typed] at further
    cases further
  | some found =>
    simp only [typed] at further
    obtain ⟨rfl, rfl⟩ := pure_eq_ok.1 further
    rw [keyword_of_ofKeyword? typed]
    exact name_eq_ok named

/-- What stands behind a colon fits, and was written by the tokens taken. -/
theorem typedBehind_sound {α : Type} (build : TypeReference → Option Value → List Directive → α)
    {result : α} (taken : typedBehind build tokens = .ok (result, rest)) :
    ∃ type default directives, result = build type default directives ∧
      type.Fits nestingLimit ∧ DefaultFits default ∧ DirectivesFit true nestingLimit directives ∧
        Takes tokens rest
          (type.tokens ++ (defaultTokens default ++ directiveTokens directives)) := by
  unfold typedBehind at taken
  obtain ⟨type, middle, typed, further⟩ := bind_eq_ok.1 taken
  obtain ⟨typeFits, typeTaken⟩ := typeReference_sound nestingLimit typed
  obtain ⟨passed, behind, looked, onward⟩ := bind_eq_ok.1 further
  rcases skip_eq_ok looked with ⟨rfl, rfl⟩ | ⟨rfl, rfl, -⟩
  · obtain ⟨default, last, given, onward⟩ := bind_eq_ok.1 onward
    obtain ⟨literal, parsed, rfl⟩ := map_eq_ok.1 given
    obtain ⟨literalFits, literalTaken⟩ := value_sound true nestingLimit parsed
    obtain ⟨results, last, applied, done⟩ := bind_eq_ok.1 onward
    obtain ⟨rfl, rfl⟩ := pure_eq_ok.1 done
    obtain ⟨resultsFit, resultsTaken⟩ := directives_sound true nestingLimit applied
    refine ⟨type, some literal, results, rfl, typeFits, ?_, resultsFit, ?_⟩
    · rintro _ ⟨⟩
      exact literalFits
    · exact typeTaken.trans ((literalTaken.cons _).trans resultsTaken)
  · obtain ⟨default, last, missing, onward⟩ := bind_eq_ok.1 onward
    obtain ⟨rfl, rfl⟩ := pure_eq_ok.1 missing
    obtain ⟨results, last, applied, done⟩ := bind_eq_ok.1 onward
    obtain ⟨rfl, rfl⟩ := pure_eq_ok.1 done
    obtain ⟨resultsFit, resultsTaken⟩ := directives_sound true nestingLimit applied
    exact ⟨type, none, results, rfl, typeFits, by simp [DefaultFits], resultsFit,
      typeTaken.trans resultsTaken⟩

/-- A variable definition that was parsed fits, and was written by the tokens
taken. -/
theorem variableDefinition_sound :
    Sound variableDefinition VariableDefinition.tokens VariableDefinition.Fits
      VariableDefinition.descriptions := by
  intro tokens result rest taken
  unfold variableDefinition at taken
  obtain ⟨description, first, described, further⟩ := bind_eq_ok.1 taken
  obtain ⟨-, descriptionTaken⟩ := optionalDescription_sound described
  obtain ⟨_, second, signed, further⟩ := bind_eq_ok.1 further
  obtain ⟨variableName, third, named, further⟩ := bind_eq_ok.1 further
  obtain ⟨_, fourth, parted, further⟩ := bind_eq_ok.1 further
  obtain ⟨type, default, directives, rfl, typeFits, defaultFits, directivesFit, behind⟩ :=
    typedBehind_sound (VariableDefinition.mk description variableName) further
  rw [expect_eq_ok signed, name_eq_ok named, expect_eq_ok parted] at descriptionTaken
  exact ⟨⟨typeFits, defaultFits, directivesFit⟩,
    descriptionTaken.trans_plain (((behind.cons _).cons _).cons _)⟩

/-- An operation that was parsed fits, and was written by the tokens taken. -/
theorem operationDefinition_sound :
    Sound operationDefinition OperationDefinition.tokens OperationDefinition.Fits
      OperationDefinition.descriptions := by
  intro tokens result rest taken
  unfold operationDefinition at taken
  obtain ⟨description, first, described, further⟩ := bind_eq_ok.1 taken
  obtain ⟨-, descriptionTaken⟩ := optionalDescription_sound described
  obtain ⟨operation, second, typed, further⟩ := bind_eq_ok.1 further
  obtain ⟨operationName, third, named, further⟩ := bind_eq_ok.1 further
  obtain ⟨-, nameTaken⟩ := optionalName_sound named
  obtain ⟨entries, fourth, several, further⟩ := bind_eq_ok.1 further
  obtain ⟨entriesFit, entriesTaken⟩ := optionallyEnclosed_sound variableDefinition_sound _ _ several
  obtain ⟨results, fifth, applied, further⟩ := bind_eq_ok.1 further
  obtain ⟨resultsFit, resultsTaken⟩ := directives_sound false nestingLimit applied
  obtain ⟨selections, last, nested, done⟩ := bind_eq_ok.1 further
  obtain ⟨rfl, rfl⟩ := pure_eq_ok.1 done
  obtain ⟨selectionsFit, selectionsTaken⟩ := selectionSet_sound nestingLimit nested
  rw [operationType_eq_ok typed] at descriptionTaken
  exact ⟨⟨entriesFit, resultsFit, selectionsFit⟩, descriptionTaken.trans
    ((nameTaken.trans (entriesTaken.trans_plain (resultsTaken.trans selectionsTaken))).cons _)⟩

/-- A fragment that was parsed fits, and was written by the tokens taken. -/
theorem fragmentDefinition_sound :
    Sound fragmentDefinition FragmentDefinition.tokens FragmentDefinition.Fits
      FragmentDefinition.descriptions := by
  intro tokens result rest taken
  unfold fragmentDefinition at taken
  obtain ⟨description, first, described, further⟩ := bind_eq_ok.1 taken
  obtain ⟨-, descriptionTaken⟩ := optionalDescription_sound described
  obtain ⟨_, second, opened, further⟩ := bind_eq_ok.1 further
  obtain ⟨definedName, third, named, further⟩ := bind_eq_ok.1 further
  obtain ⟨spelled, free⟩ := fragmentName_eq_ok named
  obtain ⟨_, fourth, parted, further⟩ := bind_eq_ok.1 further
  obtain ⟨typeCondition, fifth, conditioned, further⟩ := bind_eq_ok.1 further
  obtain ⟨results, sixth, applied, further⟩ := bind_eq_ok.1 further
  obtain ⟨resultsFit, resultsTaken⟩ := directives_sound false nestingLimit applied
  obtain ⟨selections, last, nested, done⟩ := bind_eq_ok.1 further
  obtain ⟨rfl, rfl⟩ := pure_eq_ok.1 done
  obtain ⟨selectionsFit, selectionsTaken⟩ := selectionSet_sound nestingLimit nested
  rw [expectKeyword_eq_ok opened, spelled, expectKeyword_eq_ok parted,
    name_eq_ok conditioned] at descriptionTaken
  exact ⟨⟨free, resultsFit, selectionsFit⟩, descriptionTaken.trans_plain
    (((((resultsTaken.trans selectionsTaken).cons _).cons _).cons _).cons _)⟩

end Soundness

section Completeness

/-- A description is taken back in front of what is none. -/
theorem optionalDescription_append (description : Option String) (plain : ¬Describes rest) :
    optionalDescription (descriptionTokens description ++ rest) = .ok (description, rest) := by
  cases description with
  | none => exact optionalDescription_of_not plain
  | some description => rfl

/-- Tokens that begin with a name are no description. -/
theorem not_describes_name (text : String) (rest : List Token) :
    ¬Describes (.name text :: rest) := by
  simp [Describes]

/-- Tokens that begin with a sign are no description. -/
theorem not_describes_punctuator (sign : Punctuator) (rest : List Token) :
    ¬Describes (.punctuator sign :: rest) := by
  simp [Describes]

/-- A name that may be missing is taken back in front of what is no name. -/
theorem optionalName_append (found : Option String)
    (unnamed : ∀ text, rest.head? ≠ some (.name text)) :
    optionalName (nameTokens found ++ rest) = .ok (found, rest) := by
  cases found with
  | none => exact optionalName_of_head_ne unnamed
  | some text => rfl

/-- An operation type is taken back. -/
theorem operationType_cons (operation : OperationType) (rest : List Token) :
    operationType (.name operation.keyword :: rest) = .ok (operation, rest) := by
  cases operation <;> rfl

/-- A default begins with its sign, if there is one. -/
theorem defaultTokens_begun (default : Option Value) :
    defaultTokens default = [] ∨ (defaultTokens default).head? = some (.punctuator .equals) := by
  cases default with
  | none => exact .inl rfl
  | some value => exact .inr rfl

/-- What stands behind a colon is taken back, in front of anything that does not
prolong it. -/
theorem typedBehind_returns {α : Type}
    (build : TypeReference → Option Value → List Directive → α) {type : TypeReference}
    {default : Option Value} {results : List Directive} (typeFits : type.Fits nestingLimit)
    (defaultFits : DefaultFits default) (resultsFit : DirectivesFit true nestingLimit results) :
    Returns (typedBehind build)
      (type.tokens ++ (defaultTokens default ++ directiveTokens results))
      (build type default results) memberSigns := by
  intro rest clear
  have undirected := directives_returns resultsFit rest (clear.of_subset (by simp [memberSigns]))
  have unequalled : Clear [.punctuator .equals] (directiveTokens results ++ rest) :=
    (clear.of_subset (by simp [memberSigns])).append (directiveTokens_begun results) (by simp)
  have unmarked : Clear [.punctuator .bang]
      (defaultTokens default ++ (directiveTokens results ++ rest)) :=
    ((clear.of_subset (by simp [memberSigns])).append (directiveTokens_begun results)
      (by simp)).append (defaultTokens_begun default) (by simp)
  unfold typedBehind
  rw [List.append_assoc, List.append_assoc,
    bind_of_ok (typeReference_returns typeFits _ unmarked)]
  cases default with
  | none =>
    refine (bind_of_ok (skip_of_head_ne (unequalled _ List.mem_cons_self))).trans ?_
    refine (bind_of_ok (pure_eq_ok.2 ⟨rfl, rfl⟩)).trans ?_
    exact bind_of_ok undirected
  | some literal =>
    have given := value_returns (defaultFits literal rfl) (directiveTokens results ++ rest)
      (by simp [Clear])
    refine (bind_of_ok (skip_cons .equals _)).trans ?_
    refine (bind_of_ok (map_eq_ok.2 ⟨literal, given, rfl⟩)).trans ?_
    exact bind_of_ok undirected

/-- A variable definition that fits is taken back, in front of anything that does not
prolong it. -/
theorem variableDefinition_returns {result : VariableDefinition} (fits : result.Fits) :
    Returns variableDefinition result.tokens result memberSigns := by
  intro rest clear
  have behind := typedBehind_returns (VariableDefinition.mk result.description result.name)
    fits.type fits.default fits.directives rest clear
  unfold variableDefinition
  rw [VariableDefinition.tokens, List.append_assoc]
  refine (bind_of_ok
    (optionalDescription_append result.description (not_describes_punctuator .dollar _))).trans ?_
  refine (bind_of_ok (expect_cons .dollar _)).trans ?_
  refine (bind_of_ok (name_cons result.name _)).trans ?_
  refine (bind_of_ok (expect_cons .colon _)).trans ?_
  exact behind

/-- Variable definitions that fit stand apart from each other. -/
theorem apart_variableDefinitions {results : List VariableDefinition}
    (fit : ∀ result ∈ results, result.Fits) :
    Apart variableDefinition VariableDefinition.tokens .closeParenthesis memberSigns results where
  unbarred := by simp [memberSigns]
  returned := fun result inside => variableDefinition_returns (fit result inside)
  begun := fun result _ rest => by
    cases described : result.description <;>
      simp [VariableDefinition.tokens, described, descriptionTokens, Clear, memberSigns]

/-- An operation that fits is taken back, in front of anything. -/
theorem operationDefinition_returns {result : OperationDefinition} (fits : result.Fits) :
    Returns operationDefinition result.tokens result [] := by
  intro rest clear
  have nested := selectionSet_returns fits.selections rest clear
  obtain ⟨others, opened⟩ := selectionTokens_eq_cons fits.selections.1
  have directed := directives_returns fits.directives (selectionTokens result.selections ++ rest)
    (by simp [opened, Clear])
  have unparenthesized : Clear [.punctuator .openParenthesis]
      (directiveTokens result.directives ++ (selectionTokens result.selections ++ rest)) := by
    refine Clear.append (directiveTokens_begun result.directives) (by simp) ?_
    simp [opened, Clear]
  have entries := optionallyEnclosed_returns (apart_variableDefinitions fits.variableDefinitions)
    _ unparenthesized
  obtain ⟨sign, following, signed⟩ :=
    opens_with_sign result.directives fits.selections.1 rest
  have unnamed (text : String) : (enclosedTokens .openParenthesis .closeParenthesis
      VariableDefinition.tokens result.variableDefinitions ++
        (directiveTokens result.directives ++ (selectionTokens result.selections ++ rest))).head? ≠
          some (.name text) := by
    rw [← List.append_assoc (directiveTokens _), signed]
    rcases enclosedTokens_begun .openParenthesis .closeParenthesis VariableDefinition.tokens
      result.variableDefinitions with none? | begun
    · simp [none?]
    · rw [List.head?_append, begun]
      simp
  unfold operationDefinition
  simp only [OperationDefinition.tokens, List.append_assoc, List.cons_append]
  refine (bind_of_ok
    (optionalDescription_append result.description (not_describes_name _ _))).trans ?_
  refine (bind_of_ok (operationType_cons result.operation _)).trans ?_
  refine (bind_of_ok (optionalName_append result.name unnamed)).trans ?_
  refine (bind_of_ok entries).trans ?_
  refine (bind_of_ok directed).trans ?_
  exact bind_of_ok nested

/-- A fragment that fits is taken back, in front of anything. -/
theorem fragmentDefinition_returns {result : FragmentDefinition} (fits : result.Fits) :
    Returns fragmentDefinition result.tokens result [] := by
  intro rest clear
  have nested := selectionSet_returns fits.selections rest clear
  obtain ⟨others, opened⟩ := selectionTokens_eq_cons fits.selections.1
  have directed := directives_returns fits.directives (selectionTokens result.selections ++ rest)
    (by simp [opened, Clear])
  unfold fragmentDefinition
  simp only [FragmentDefinition.tokens, List.append_assoc, List.cons_append]
  refine (bind_of_ok
    (optionalDescription_append result.description (not_describes_name _ _))).trans ?_
  refine (bind_of_ok (expectKeyword_cons "fragment" _)).trans ?_
  refine (bind_of_ok (fragmentName_cons fits.name _)).trans ?_
  refine (bind_of_ok (expectKeyword_cons "on" _)).trans ?_
  refine (bind_of_ok (name_cons result.typeCondition _)).trans ?_
  refine (bind_of_ok directed).trans ?_
  exact bind_of_ok nested

end Completeness

end GraphQLCanon.Grammar.Parser
