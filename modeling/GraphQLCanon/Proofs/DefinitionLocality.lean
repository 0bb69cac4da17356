import GraphQLCanon.Proofs.ParsingDocuments
import GraphQLCanon.Proofs.ParsingLocality

/-!
# Definitions in front of more tokens

An operation or a fragment ends with a closing brace, so it is parsed in the same way
whatever stands behind it. The parts of a type-system definition may be left out at its end:
it is parsed in the same way in front of all tokens that would not begin one of them. No
type-system definition begins with such a token, so documents of one kind can stand one
behind the other.
-/

namespace GraphQLCanon.Grammar.Parser

open GraphQLCanon.Lexical

variable {barred : Token → Prop} {tokens rest : List Token}

section Values

/-- What is left behind tokens that were taken is an end of the input. -/
theorem Takes.suffix {shown : List Token} {descriptions : List String} {signs : List Punctuator}
    (taken : Takes tokens rest shown descriptions signs) : rest <:+ tokens := by
  obtain ⟨front, split, -⟩ := taken
  exact ⟨front, split.symm⟩

/-- What begins with a sign takes at least that. -/
theorem consumes_expect_bind {α : Type} (sign : Punctuator) {next : Unit → Parser α}
    (further : ∀ done, Local barred (next done)) : Consumes (expect sign >>= next) := by
  intro tokens value rest taken
  obtain ⟨done, middle, signed, behind⟩ := bind_eq_ok.1 taken
  rw [expect_eq_ok signed, List.length_cons]
  exact Nat.lt_succ_of_le ((further done).length_le behind)

/-- A named value is local as the value is. -/
theorem local_namedValue {item : Parser Value} (own : Local barred item) :
    Local barred (namedValue item) :=
  local_name.bind fun _ => (local_expect .colon).bind fun _ => own.bind fun _ => local_pure _

/-- A variable that is admitted is a dollar sign and a name. -/
theorem variableValue_eq_ok {constant : Bool} {result : Value}
    (taken : variableValue constant tokens = .ok (result, rest)) :
    constant = false ∧ ∃ text, tokens = .punctuator .dollar :: .name text :: rest ∧
      result = .variableRef text := by
  unfold variableValue at taken
  rw [bind_of_ok (get_eq tokens)] at taken
  obtain ⟨_, behind, signed, further⟩ := bind_eq_ok.1 taken
  rw [expect_eq_ok signed]
  cases constant with
  | true =>
    cases behind with
    | nil => cases further
    | cons token others => cases token <;> cases further
  | false =>
    obtain ⟨text, last, named, done⟩ := bind_eq_ok.1 further
    obtain ⟨rfl, rfl⟩ := pure_eq_ok.1 done
    rw [name_eq_ok named]
    exact ⟨rfl, text, rfl, rfl⟩

/-- A variable is the same in front of more tokens. -/
theorem variableValue_before {constant : Bool} {result : Value}
    (taken : variableValue constant tokens = .ok (result, rest)) (more : List Token) :
    variableValue constant (tokens ++ more) = .ok (result, rest ++ more) := by
  obtain ⟨rfl, text, rfl, rfl⟩ := variableValue_eq_ok taken
  rfl

/-- A value is local inside of a text. -/
theorem local_value (constant : Bool) (allowance : Nat) :
    Local anyToken (value constant allowance) := by
  induction allowance with
  | zero =>
    refine local_of_front (fun taken => (value_sound constant 0 taken).2.suffix) ?_
    intro token others result rest taken more
    unfold value at taken ⊢
    rw [bind_of_ok (peek_eq _)] at taken
    rw [bind_of_ok (peek_eq _)]
    cases token with
    | punctuator sign =>
      cases sign with
      | dollar => exact variableValue_before taken more
      | _ => cases taken
    | _ =>
      cases taken
      rfl
  | succ inner inductionHypothesis =>
    refine local_of_front (fun taken => (value_sound constant (inner + 1) taken).2.suffix) ?_
    intro token others result rest taken more
    unfold value at taken ⊢
    rw [bind_of_ok (peek_eq _)] at taken
    rw [bind_of_ok (peek_eq _)]
    cases token with
    | punctuator sign =>
      cases sign with
      | dollar => exact variableValue_before taken more
      | openBracket =>
        exact ((local_enclosed inductionHypothesis .openBracket .closeBracket).map
          Value.list).always taken more
      | openBrace =>
        exact ((local_enclosed (local_namedValue inductionHypothesis) .openBrace .closeBrace).map
          Value.object).always taken more
      | _ => cases taken
    | _ =>
      cases taken
      rfl

/-- A type is local inside of a text. -/
theorem local_typeReference (allowance : Nat) : Local anyToken (typeReference allowance) := by
  have mark (base : TypeReference) : Local anyToken (marked base) :=
    (local_skip trivial).bind fun passed => local_ite (local_pure _) (local_pure _)
  induction allowance with
  | zero =>
    unfold typeReference
    exact (local_skip trivial).bind fun passed => local_ite ((local_refuse _).bind mark)
      (local_name.bind fun text => mark (.named text))
  | succ inner inductionHypothesis =>
    unfold typeReference
    exact (local_skip trivial).bind fun passed => local_ite
      (inductionHypothesis.bind fun item =>
        (local_expect .closeBracket).bind fun _ => mark (.list item))
      (local_name.bind fun text => mark (.named text))

/-- Arguments are local where their opening sign is barred. -/
theorem local_arguments (bar : barred (.punctuator .openParenthesis)) (constant : Bool)
    (allowance : Nat) : Local barred (arguments constant allowance) :=
  local_optionallyEnclosed (local_namedValue (local_value constant allowance)) .closeParenthesis bar

/-- Directives are local where the signs of a directive and of arguments are barred. -/
theorem local_directives (bar : barred (.punctuator .atSign))
    (barArguments : barred (.punctuator .openParenthesis)) (constant : Bool) (allowance : Nat) :
    Local barred (directives constant allowance) := by
  have behind (_ : Unit) : Local barred (do
      let directiveName ← name
      return ⟨directiveName, ← arguments constant allowance⟩ : Parser Directive) :=
    local_name.bind fun _ => (local_arguments barArguments constant allowance).bind fun _ =>
      local_pure _
  exact (local_sees bar).bind fun seen => local_ite
    (local_itemsWhile ((local_expect .atSign).bind behind) (consumes_expect_bind .atSign behind)
      bar) (local_pure [])

end Values

section Executables

/-- A name that may name a fragment is taken, whatever comes next. -/
theorem local_fragmentName : Local barred fragmentName :=
  local_of_one fun taken =>
    ⟨_, (fragmentName_eq_ok taken).1, fragmentName_cons (fragmentName_eq_ok taken).2⟩

variable {selections : Parser (List Selection)}

/-- A field is local inside of a text. -/
theorem local_field (own : Local anyToken selections) (allowance : Nat) :
    Local anyToken (field allowance selections) := by
  refine local_name.bind fun first => (local_skip trivial).bind fun aliased => ?_
  have behind (fieldName : String) : Local anyToken (do
      let fieldArguments ← arguments false allowance
      let fieldDirectives ← directives false allowance
      let fieldSelections ← if ← sees .openBrace then selections else pure []
      return Selection.field (if aliased then some first else none) fieldName fieldArguments
        fieldDirectives fieldSelections) := by
    refine (local_arguments trivial false allowance).bind fun fieldArguments =>
      (local_directives trivial trivial false allowance).bind fun fieldDirectives =>
        (local_sees trivial).bind fun seen => ?_
    exact local_ite (own.bind fun _ => local_pure _) ((local_pure _).bind fun _ => local_pure _)
  exact local_ite (local_name.bind behind) ((local_pure first).bind behind)

/-- A fragment spread or an inline fragment is local inside of a text. -/
theorem local_fragment (own : Local anyToken selections) (allowance : Nat) :
    Local anyToken (fragment allowance selections) := by
  refine (local_expect .ellipsis).bind fun _ => (local_skipKeyword trivial).bind fun passed => ?_
  have nested (typeCondition : Option String) : Local anyToken (do
      let fragmentDirectives ← directives false allowance
      return Selection.inline typeCondition fragmentDirectives (← selections)) :=
    (local_directives trivial trivial false allowance).bind fun _ => own.bind fun _ => local_pure _
  refine local_ite (local_name.bind fun typeCondition => nested (some typeCondition))
    (local_peek.bind fun found => ?_)
  split
  · exact local_fragmentName.bind fun _ =>
      (local_directives trivial trivial false allowance).bind fun _ => local_pure _
  · exact nested none

/-- A selection set is local, whatever comes next. -/
theorem local_selectionSet (allowance : Nat) : Local barred (selectionSet allowance) := by
  induction allowance generalizing barred with
  | zero => exact local_refuse _
  | succ inner inductionHypothesis =>
    refine local_enclosedSome ?_ .openBrace .closeBrace
    exact (local_sees trivial).bind fun seen => local_ite
      (local_fragment inductionHypothesis inner) (local_field inductionHypothesis inner)

/-- The keyword of an operation is taken, whatever comes next. -/
theorem local_operationType : Local barred operationType :=
  local_of_one fun taken => ⟨_, operationType_eq_ok taken, operationType_cons _⟩

/-- The definition of a variable is local inside of a text. -/
theorem local_variableDefinition : Local anyToken variableDefinition := by
  refine local_optionalDescription.bind fun description => (local_expect .dollar).bind fun _ =>
    local_name.bind fun variableName => (local_expect .colon).bind fun _ =>
      (local_typeReference nestingLimit).bind fun type => (local_skip trivial).bind fun passed => ?_
  have behind (default : Option Value) : Local anyToken (do
      return VariableDefinition.mk description variableName type default
        (← directives true nestingLimit)) :=
    (local_directives trivial trivial true nestingLimit).bind fun _ => local_pure _
  exact local_ite (((local_value true nestingLimit).map some).bind behind)
    ((local_pure none).bind behind)

/-- An operation with its keyword is local, whatever comes next. -/
theorem local_operationDefinition : Local barred operationDefinition := by
  refine local_optionalDescription.bind_hungry (fun description => ?_) ?_
  · refine local_operationType.bind fun operation => ?_
    refine local_optionalName.bind_hungry (fun operationName => ?_) ?_
    · refine (local_optionallyEnclosed local_variableDefinition .closeParenthesis
        trivial).bind_hungry (fun variableDefinitions => ?_) ?_
      · refine (local_directives trivial trivial false nestingLimit).bind_hungry
          (fun operationDirectives => ?_) ?_
        · exact (local_selectionSet nestingLimit).bind fun _ => local_pure _
        · rintro value result ⟨⟩
      · rintro value result ⟨⟩
    · rintro value result ⟨⟩
  · rintro value result ⟨⟩

/-- A fragment is local, whatever comes next. -/
theorem local_fragmentDefinition : Local barred fragmentDefinition := by
  refine local_optionalDescription.bind_hungry (fun description => ?_) ?_
  · refine (local_expectKeyword "fragment").bind fun _ => local_fragmentName.bind fun definedName =>
      (local_expectKeyword "on").bind fun _ => local_name.bind fun typeCondition => ?_
    refine (local_directives trivial trivial false nestingLimit).bind_hungry
      (fun fragmentDirectives => ?_) ?_
    · exact (local_selectionSet nestingLimit).bind fun _ => local_pure _
    · rintro value result ⟨⟩
  · rintro value result ⟨⟩

end Executables

section TypeSystem

/-- An argument of a field, or a field of an input object, is local inside of a text. -/
theorem local_inputValueDefinition : Local anyToken inputValueDefinition := by
  refine local_optionalDescription.bind fun description => local_name.bind fun valueName =>
    (local_expect .colon).bind fun _ => (local_typeReference nestingLimit).bind fun type =>
      (local_skip trivial).bind fun passed => ?_
  have behind (default : Option Value) : Local anyToken (do
      return InputValueDefinition.mk description valueName type default
        (← directives true nestingLimit)) :=
    (local_directives trivial trivial true nestingLimit).bind fun _ => local_pure _
  exact local_ite (((local_value true nestingLimit).map some).bind behind)
    ((local_pure none).bind behind)

/-- A field of a type is local inside of a text. -/
theorem local_fieldDefinition : Local anyToken fieldDefinition :=
  local_optionalDescription.bind fun _ => local_name.bind fun _ =>
    (local_optionallyEnclosed local_inputValueDefinition .closeParenthesis trivial).bind fun _ =>
      (local_expect .colon).bind fun _ => (local_typeReference nestingLimit).bind fun _ =>
        (local_directives trivial trivial true nestingLimit).bind fun _ => local_pure _

/-- A value of an enum is local inside of a text. -/
theorem local_enumValueDefinition : Local anyToken enumValueDefinition := by
  refine local_optionalDescription.bind fun description => local_peek.bind fun found => ?_
  have behind (_ : PUnit) : Local anyToken (do
      let valueName ← name
      return EnumValueDefinition.mk description valueName (← directives true nestingLimit)) :=
    local_name.bind fun _ =>
      (local_directives trivial trivial true nestingLimit).bind fun _ => local_pure _
  cases found with
  | some token =>
    exact local_ite ((local_refuse _).bind behind) ((local_pure PUnit.unit).bind behind)
  | none => exact (local_pure PUnit.unit).bind behind

/-- A root operation is local, whatever comes next. -/
theorem local_rootOperation : Local barred rootOperation :=
  local_operationType.bind fun _ => (local_expect .colon).bind fun _ => local_name.bind fun _ =>
    local_pure _

/-- A name takes a token. -/
theorem consumes_name : Consumes name := by
  intro tokens text rest taken
  rw [name_eq_ok taken, List.length_cons]
  exact Nat.lt_succ_self _

/-- The signs that would go on with a type-system definition. -/
abbrev definitionSign : Token → Prop := (· ∈ definitionSigns)

/-- Implemented interfaces are local where no sign of a definition comes next. -/
theorem local_implementedInterfaces : Local definitionSign implementedInterfaces :=
  (local_skipKeyword (by decide)).bind fun passed => local_ite
    (local_separated local_name consumes_name (by decide)) (local_pure [])

/-- Union members are local where no sign of a definition comes next. -/
theorem local_unionMembers : Local definitionSign unionMembers :=
  (local_skip (by decide)).bind fun passed => local_ite
    (local_separated local_name consumes_name (by decide)) (local_pure [])

/-- The directives of a definition are local where no sign of a definition comes next. -/
theorem local_definitionDirectives : Local definitionSign (directives true nestingLimit) :=
  local_directives (by decide) (by decide) true nestingLimit

/-- A list in braces is local where no sign of a definition comes next. -/
theorem local_braces {α : Type} {item : Parser α} (own : Local anyToken item) :
    Local definitionSign (optionallyEnclosed .openBrace .closeBrace item) :=
  local_optionallyEnclosed own .closeBrace (by decide)

/-- A body that is local where no sign of a definition comes next, and needs a token. -/
structure BodyLocal (body : Option String → Parser TypeSystemDefinition) : Prop where
  own : ∀ description, Local definitionSign (body description)
  hungry : ∀ description, Hungry (body description)

variable {roots : Parser (List (OperationType × String))}

/-- The body of a schema may end with its directives where root operations may be left
out. -/
theorem local_schemaBody (own : Local definitionSign roots) : BodyLocal (schemaBody roots) where
  own := fun description => (local_expectKeyword "schema").bind fun _ =>
    local_definitionDirectives.bind fun _ => own.bind fun _ => local_pure _
  hungry := by rintro description result ⟨⟩

/-- The body of a scalar may end with directives. -/
theorem local_scalarBody : BodyLocal scalarBody where
  own := fun description => (local_expectKeyword "scalar").bind fun _ => local_name.bind fun _ =>
    local_definitionDirectives.bind fun _ => local_pure _
  hungry := by rintro description result ⟨⟩

/-- What stands behind the keyword of an object type or interface may end with each of its
parts. -/
theorem local_compositeBehind (build : String → List String → List Directive →
    List FieldDefinition → TypeSystemDefinition) : Local definitionSign (compositeBehind build) :=
  local_name.bind fun _ => local_implementedInterfaces.bind fun _ =>
    local_definitionDirectives.bind fun _ => (local_braces local_fieldDefinition).bind fun _ =>
      local_pure _

/-- What stands behind the keyword of a union, enum or input object may end with each of
its parts. -/
theorem local_listedBehind {α : Type} {items : Parser (List α)} (own : Local definitionSign items)
    (build : String → List Directive → List α → TypeSystemDefinition) :
    Local definitionSign (listedBehind items build) :=
  local_name.bind fun _ => local_definitionDirectives.bind fun _ => own.bind fun _ => local_pure _

/-- The body that a keyword opens is local where no sign of a definition comes next. -/
theorem bodyOf?_local {keyword : String} {body : Option String → Parser TypeSystemDefinition}
    (own : Local definitionSign roots) (opened : bodyOf? roots keyword = some body) :
    BodyLocal body := by
  unfold bodyOf? at opened
  split at opened <;> cases opened
  · exact local_schemaBody own
  · exact local_scalarBody
  · exact ⟨fun description => (local_expectKeyword "type").bind fun _ =>
      local_compositeBehind (.object description), by rintro description result ⟨⟩⟩
  · exact ⟨fun description => (local_expectKeyword "interface").bind fun _ =>
      local_compositeBehind (.interface description), by rintro description result ⟨⟩⟩
  · exact ⟨fun description => (local_expectKeyword "union").bind fun _ =>
      local_listedBehind local_unionMembers (.union description),
      by rintro description result ⟨⟩⟩
  · exact ⟨fun description => (local_expectKeyword "enum").bind fun _ =>
      local_listedBehind (local_braces local_enumValueDefinition) (.enum description),
      by rintro description result ⟨⟩⟩
  · exact ⟨fun description => (local_expectKeyword "input").bind fun _ =>
      local_listedBehind (local_braces local_inputValueDefinition) (.inputObject description),
      by rintro description result ⟨⟩⟩

/-- A type-system definition is local where no sign of a definition comes next. -/
theorem local_typeSystemDefinition {body : Option String → Parser TypeSystemDefinition}
    (own : BodyLocal body) : Local definitionSign (typeSystemDefinition body) :=
  local_optionalDescription.bind_hungry own.own own.hungry

/-- An extension is local inside of a text. -/
theorem local_extension : Local anyToken extension := by
  refine local_peek.bind fun found => ?_
  split
  · split
    · rename_i body opened
      have own := bodyOf?_local (local_braces local_rootOperation) opened
      exact (own.own none).inside.bind fun addition => local_ite (local_refuse _) (local_pure _)
    · exact local_refuse _
  · exact local_refuse _

/-- A place where a directive applies is a name. -/
theorem directiveLocation_eq_ok {location : String}
    (taken : directiveLocation tokens = .ok (location, rest)) :
    tokens = .name location :: rest ∧ location ∈ directiveLocations := by
  unfold directiveLocation at taken
  rw [bind_of_ok (get_eq tokens)] at taken
  obtain ⟨text, middle, named, further⟩ := bind_eq_ok.1 taken
  split at further
  · rename_i known
    obtain ⟨rfl, rfl⟩ := pure_eq_ok.1 further
    exact ⟨name_eq_ok named, known⟩
  · cases further

/-- A place where a directive applies is taken, whatever comes next. -/
theorem local_directiveLocation : Local barred directiveLocation := by
  refine local_of_one fun taken => ⟨_, (directiveLocation_eq_ok taken).1, fun others => ?_⟩
  unfold directiveLocation
  refine (bind_of_ok (get_eq _)).trans ((bind_of_ok (name_cons _ _)).trans ?_)
  rw [if_pos (directiveLocation_eq_ok taken).2]
  rfl

/-- The definition of a directive is local inside of a text. -/
theorem local_directiveDefinition : Local anyToken directiveDefinition := by
  have consumes : Consumes directiveLocation := by
    intro tokens location rest taken
    rw [(directiveLocation_eq_ok taken).1, List.length_cons]
    exact Nat.lt_succ_self _
  exact local_optionalDescription.bind fun _ => (local_expectKeyword "directive").bind fun _ =>
    (local_expect .atSign).bind fun _ => local_name.bind fun _ =>
      (local_optionallyEnclosed local_inputValueDefinition .closeParenthesis trivial).bind fun _ =>
        (local_skipKeyword trivial).bind fun _ => (local_expectKeyword "on").bind fun _ =>
          (local_separated local_directiveLocation consumes trivial).bind fun _ => local_pure _

end TypeSystem

section Definitions

/-- The tokens that would go on with a definition: none behind the closing brace of an
operation or a fragment, and the signs of its parts behind a type-system definition. -/
def prolongs : Definition → Token → Prop
  | .shorthand _ | .operation _ | .fragment _ => noToken
  | .typeSystem _ => definitionSign
  | .directive _ | .extension _ => anyToken

variable {more : List Token} {result : Definition}

/-- A parser of definitions that takes the same in front of tokens that do not go on with
what it yields. -/
structure DefinitionLocal (parser : Parser Definition) : Prop where
  before : ∀ {tokens result rest more}, parser tokens = .ok (result, rest) →
    (rest = [] → Free (prolongs result) more) → parser (tokens ++ more) = .ok (result, rest ++ more)

/-- A definition of one kind is local when its parts are. -/
theorem definitionLocal_map {α : Type} {parser : Parser α} (wrap : α → Definition)
    (own : Local barred parser) (same : ∀ value, prolongs (wrap value) = barred) :
    DefinitionLocal (wrap <$> parser) where
  before := by
    intro tokens result rest more taken free
    refine (own.map wrap).before taken ?_
    obtain ⟨value, -, rfl⟩ := map_eq_ok.1 taken
    rwa [same] at free

/-- The definition that a keyword opens is local. -/
theorem definitionOf?_local {keyword : String} {parser : Parser Definition}
    (opened : definitionOf? keyword = some parser) : DefinitionLocal parser := by
  unfold definitionOf? at opened
  split at opened
  · cases opened
    exact definitionLocal_map .operation local_operationDefinition fun _ => rfl
  · cases opened
    exact definitionLocal_map .operation local_operationDefinition fun _ => rfl
  · cases opened
    exact definitionLocal_map .operation local_operationDefinition fun _ => rfl
  · cases opened
    exact definitionLocal_map .fragment local_fragmentDefinition fun _ => rfl
  · cases opened
    exact definitionLocal_map .directive local_directiveDefinition fun _ => rfl
  · obtain ⟨body, bodied, rfl⟩ := Option.map_eq_some_iff.1 opened
    have rooted : Local definitionSign rootOperations :=
      local_enclosedSome local_rootOperation .openBrace .closeBrace
    exact definitionLocal_map .typeSystem
      (local_typeSystemDefinition (bodyOf?_local rooted bodied)) fun _ => rfl

/-- A definition behind its description is local. The word that opens it stands in front of
anything more. -/
theorem describedDefinition_before {start behind : List Token} (starting : List Token)
    (taken : describedDefinition start behind tokens = .ok (result, rest))
    (free : rest = [] → Free (prolongs result) more) :
    describedDefinition starting (behind ++ more) (tokens ++ more) =
      .ok (result, rest ++ more) := by
  unfold describedDefinition at taken ⊢
  cases behind with
  | nil => cases taken
  | cons token others =>
    cases token with
    | name keyword =>
      cases opened : definitionOf? keyword with
      | none =>
        simp only [List.head?_cons, opened] at taken
        cases taken
      | some parser =>
        simp only [List.head?_cons, List.cons_append, opened] at taken ⊢
        exact (definitionOf?_local opened).before taken free
    | punctuator sign => cases sign <;> cases taken
    | _ => cases taken

/-- Definitions of all kinds are local. -/
theorem definition_local : DefinitionLocal definition where
  before := by
    intro tokens result rest more taken free
    unfold definition at taken ⊢
    rw [bind_of_ok (get_eq tokens)] at taken
    rw [bind_of_ok (get_eq _)]
    cases tokens with
    | nil => cases taken
    | cons token others =>
      cases token with
      | punctuator sign =>
        cases sign with
        | openBrace =>
          exact (definitionLocal_map .shorthand (local_selectionSet nestingLimit)
            fun _ => rfl).before taken free
        | _ => cases taken
      | string description => exact describedDefinition_before _ taken free
      | blockString description => exact describedDefinition_before _ taken free
      | name keyword =>
        by_cases extended : keyword = "extend"
        · subst extended
          obtain ⟨_, behind, advanced, further⟩ := bind_eq_ok.1 taken
          cases advanced
          exact (definitionLocal_map .extension local_extension fun _ => rfl).before further free
        · cases opened : definitionOf? keyword with
          | none =>
            simp only [opened] at taken
            cases taken
          | some parser =>
            simp only [opened, List.cons_append] at taken ⊢
            exact (definitionOf?_local opened).before taken free
      | _ => cases taken

/-- No type-system definition begins with a sign that would go on with one. -/
theorem free_of_typeSystem {source : TypeSystemDefinition}
    (taken : definition tokens = .ok (.typeSystem source, rest)) : Free definitionSign tokens := by
  intro token inFront sign
  obtain ⟨others, rfl⟩ := List.head?_eq_some_iff.1 inFront
  simp only [definitionSign, definitionSigns, List.mem_cons, List.not_mem_nil, or_false] at sign
  unfold definition at taken
  rw [bind_of_ok (get_eq _)] at taken
  rcases sign with rfl | rfl | rfl | rfl | rfl | rfl | rfl
  all_goals try cases taken
  -- The brace opens a selection set, which is an operation.
  obtain ⟨selections, last, -, done⟩ := bind_eq_ok.1 taken
  obtain ⟨wrong, -⟩ := pure_eq_ok.1 done
  cases wrong

end Definitions

section Documents

/-- Tokens that are read as definitions, one behind the other. -/
inductive Reads : List Token → List Definition → Prop
  | last {tokens : List Token} {result : Definition}
    (taken : definition tokens = .ok (result, [])) : Reads tokens [result]
  | more {tokens rest : List Token} {result : Definition} {others : List Definition}
    (taken : definition tokens = .ok (result, rest)) (left : rest ≠ [])
    (further : Reads rest others) : Reads tokens (result :: others)

/-- A definition takes at least one token. -/
theorem consumes_definition : Consumes definition := by
  intro tokens result rest taken
  obtain ⟨fits, front, rfl, written⟩ := definition_sound taken
  have some? := List.length_pos_iff.2 (written.ne_nil (definitionTokens_ne_nil fits))
  rw [List.length_append]
  omega

/-- Definitions take all tokens, one behind the other, when the bound allows for them. -/
theorem definitions_eq_ok {fuel : Nat} {results : List Definition} (enough : tokens.length ≤ fuel) :
    definitions fuel tokens = .ok (results, rest) ↔ rest = [] ∧ Reads tokens results := by
  induction fuel generalizing tokens results with
  | zero =>
    obtain rfl := List.length_eq_zero_iff.1 (Nat.le_zero.1 enough)
    constructor
    · intro taken
      cases taken
    · rintro ⟨-, taken | taken⟩ <;> cases taken
  | succ fuel inductionHypothesis =>
    have onward {first : Definition} {middle : List Token}
        (one : definition tokens = .ok (first, middle)) : middle.length ≤ fuel := by
      have shorter := consumes_definition one
      omega
    unfold definitions
    constructor
    · intro taken
      obtain ⟨first, middle, one, further⟩ := bind_eq_ok.1 taken
      rw [bind_of_ok (peek_eq middle)] at further
      cases middle with
      | nil =>
        obtain ⟨rfl, rfl⟩ := pure_eq_ok.1 further
        exact ⟨rfl, .last one⟩
      | cons token others =>
        obtain ⟨following, last, more, done⟩ := bind_eq_ok.1 further
        obtain ⟨rfl, rfl⟩ := pure_eq_ok.1 done
        obtain ⟨rfl, reads⟩ := (inductionHypothesis (onward one)).1 more
        exact ⟨rfl, .more one (List.cons_ne_nil _ _) reads⟩
    · rintro ⟨rfl, reads⟩
      cases reads with
      | last one => exact bind_of_ok one
      | @more _ middle _ following one left reads =>
        refine (bind_of_ok one).trans ((bind_of_ok (peek_eq middle)).trans ?_)
        obtain ⟨token, others, rfl⟩ := List.exists_cons_of_ne_nil left
        exact bind_of_ok ((inductionHypothesis (onward one)).2 ⟨rfl, reads⟩)

/-- A document is the definitions that its tokens are read as. -/
theorem document_eq_ok {results : List Definition} :
    document tokens = .ok (results, rest) ↔ rest = [] ∧ Reads tokens results := by
  unfold document
  rw [bind_of_ok (bound_eq tokens)]
  exact definitions_eq_ok (Nat.le_succ _)

/-- Definitions stand in front of others that do not go on with them. -/
theorem Reads.append {more : List Token} {results others : List Definition}
    (reads : Reads tokens results) (further : Reads more others) (nonempty : more ≠ [])
    (free : ∀ result ∈ results, Free (prolongs result) more) :
    Reads (tokens ++ more) (results ++ others) := by
  induction reads with
  | last taken =>
    have one := definition_local.before taken fun _ => free _ List.mem_cons_self
    exact .more one nonempty further
  | more taken left _ inductionHypothesis =>
    refine .more (definition_local.before taken fun nothing => absurd nothing left)
      (by simp [left]) (inductionHypothesis fun result inside => ?_)
    exact free result (List.mem_cons_of_mem _ inside)

/-- There is something to read. -/
theorem Reads.ne_nil {results : List Definition} (reads : Reads tokens results) : tokens ≠ [] := by
  rintro rfl
  cases reads with
  | last taken => cases taken
  | more taken => cases taken

/-- The first definition stands in front. -/
theorem Reads.first {results : List Definition} (reads : Reads tokens results) :
    ∃ first rest, first ∈ results ∧ definition tokens = .ok (first, rest) := by
  cases reads with
  | last taken => exact ⟨_, _, List.mem_cons_self, taken⟩
  | more taken => exact ⟨_, _, List.mem_cons_self, taken⟩

/-- Documents of operations and fragments are read one behind the other. -/
theorem document_append_of_executables {more : List Token} {results others : List Definition}
    (one : document tokens = .ok (results, [])) (two : document more = .ok (others, []))
    (executable : ∀ result ∈ results, result.isExecutable = true) :
    document (tokens ++ more) = .ok (results ++ others, []) := by
  have reads := (document_eq_ok.1 one).2
  have further := (document_eq_ok.1 two).2
  refine document_eq_ok.2 ⟨rfl, reads.append further further.ne_nil ?_⟩
  intro result inside token _ bad
  have own := executable result inside
  cases result <;> first | exact bad | cases own

/-- Documents of type-system definitions are read one behind the other. -/
theorem document_append_of_typeSystem {more : List Token}
    {results others : List TypeSystemDefinition}
    (one : document tokens = .ok (results.map .typeSystem, []))
    (two : document more = .ok (others.map .typeSystem, [])) :
    document (tokens ++ more) = .ok ((results ++ others).map .typeSystem, []) := by
  have reads := (document_eq_ok.1 one).2
  have further := (document_eq_ok.1 two).2
  obtain ⟨first, rest, inside, taken⟩ := further.first
  obtain ⟨source, -, rfl⟩ := List.mem_map.1 inside
  rw [List.map_append]
  refine document_eq_ok.2 ⟨rfl, reads.append further further.ne_nil ?_⟩
  rw [List.forall_mem_map]
  exact fun result _ => free_of_typeSystem taken

end Documents

end GraphQLCanon.Grammar.Parser
