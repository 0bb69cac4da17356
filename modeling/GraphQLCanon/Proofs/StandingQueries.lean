import GraphQLCanon.Proofs.QueryOutlines
import GraphQLCanon.Proofs.StandingRows

/-!
# Queries that stand where they belong

The outline of every definition of a query stands where it belongs: a line begins at the
number of brackets that are open in front of it, and behind the definition none is open.
A selection is in as many brackets as its depth says, which is an induction on what the
grammar admits.
-/

namespace GraphQLCanon.Executable

open GraphQLCanon.Layout
open GraphQLCanon.Lexical
open GraphQLCanon.Grammar (Value AllLegible allLegible_cons allLegible_append allLegible_flatMap
  headerTokens argumentTokens conditionTokens selectionTokens namedTokens enclosedTokens
  balanced_value balanced_type balanced_default woven_named woven_value woven_signed)

/-- The name of a field behind its alias is whole. -/
theorem whole_header {field : Field}
    (legible : AllLegible (headerTokens field.aliasName field.name)) : Whole field.header := by
  refine ⟨_, woven_header legible, ?_⟩
  cases field.aliasName with
  | none | some aliasName => exact fun _ => rfl

/-- A written argument is whole. -/
theorem whole_argument {argument : String × Value} (legible : AllLegible (namedTokens argument)) :
    Whole (argument.1 ++ ": " ++ argument.2.write) := by
  have balanced : Balanced (namedTokens argument) := balanced_value argument.2
  simp only [namedTokens, allLegible_cons] at legible
  exact ⟨_, woven_named legible.1 (woven_value argument.2 legible.2.2), balanced⟩

/-- A field up to its selections may be prolonged. -/
theorem front_row {aliasName : Option String} {name : String} {arguments : List (String × Value)}
    (directives : List String) (header : AllLegible (headerTokens aliasName name))
    (legible : AllLegible (argumentTokens arguments)) (depth : Nat) :
    Row.Front (fun ending =>
      [Field.row ⟨name, aliasName, argumentsOf arguments, directives⟩ depth ending]) depth := by
  have whole := @whole_header ⟨name, aliasName, argumentsOf arguments, directives⟩ header
  unfold Field.row
  cases arguments with
  | nil => exact Row.front_line whole depth
  | cons first others =>
    simp only [argumentTokens, enclosedTokens, List.isEmpty_cons, Bool.false_eq_true, if_false,
      allLegible_cons, allLegible_append, allLegible_flatMap] at legible
    have each : ∀ argument ∈ (argumentsOf (first :: others)).map Argument.write,
        Whole argument := by
      rw [argumentsOf, List.map_map, List.forall_mem_map]
      exact fun argument inside => whole_argument (legible.2.1 argument inside)
    exact Row.front_listed whole (by simp [argumentsOf]) each depth

/-- The first line of an inline fragment is whole. -/
theorem whole_inlineHeader {typeCondition : Option String}
    (legible : AllLegible (conditionTokens typeCondition)) :
    Whole (inlineHeader typeCondition) := by
  refine ⟨_, woven_inlineHeader legible, ?_⟩
  cases typeCondition with
  | none | some type => exact fun _ => rfl

/-- Selections fill the level of their depth when each of them leads from it to itself. -/
theorem fill_selections {selections : List Grammar.Selection} {depth : Nat}
    (each : ∀ selection ∈ selections,
      Row.Lead ((Selection.ofGrammar selection).rows depth) depth depth) :
    Row.Fill (rowsEach depth (selectionsOf selections)) depth := by
  rw [rowsEach_eq_flatMap, selectionsOf_eq_map, List.flatMap_map]
  exact Row.fill_flatMap fun selection inside => (each selection inside).fill

/-- A selection leads from the level of its depth to itself. -/
theorem lead_selection {allowance : Nat} {selection : Grammar.Selection}
    (fits : selection.Fits allowance) (legible : AllLegible selection.tokens) (depth : Nat) :
    Row.Lead ((Selection.ofGrammar selection).rows depth) depth depth := by
  -- On the derivation that the selection fits: it says which fields have no braces.
  induction fits generalizing depth with
  | leaf aliasName name arguments directives argumentsFit directivesFit =>
    rw [Grammar.Selection.tokens_field] at legible
    simp only [allLegible_append] at legible
    exact (front_row _ legible.1 legible.2.1 depth).lead
  | branch aliasName name arguments directives selections argumentsFit directivesFit nonempty _
    inductionHypothesis =>
    rw [Grammar.Selection.tokens_field, selectionTokens_eq nonempty] at legible
    simp only [allLegible_append, allLegible_cons, allLegible_flatMap] at legible
    obtain ⟨header, arguments, -, -, entries, -⟩ := legible
    have below := fill_selections fun selection inside =>
      inductionHypothesis selection inside (entries selection inside) (depth + 1)
    have some? : (selectionsOf selections).isEmpty = false := by
      simpa [selectionsOf_eq_map] using nonempty
    simp only [Selection.ofGrammar, Selection.rows, some?]
    exact (front_row _ header arguments depth).braces below
  | spread name directives free directivesFit =>
    simp only [Grammar.Selection.tokens, allLegible_cons] at legible
    have whole : Whole ("..." ++ name) := by
      refine ⟨[.punctuator .ellipsis, .name name], ?_, fun _ => rfl⟩
      rw [String.toList_append]
      exact woven_signed .ellipsis (.token legible.2.1)
    exact Row.lead_line whole depth
  | inline typeCondition directives selections directivesFit nonempty _ inductionHypothesis =>
    rw [Grammar.Selection.tokens_inline, selectionTokens_eq nonempty] at legible
    simp only [allLegible_append, allLegible_cons, allLegible_flatMap] at legible
    obtain ⟨-, condition, -, -, entries, -⟩ := legible
    have below := fill_selections fun selection inside =>
      inductionHypothesis selection inside (entries selection inside) (depth + 1)
    simp only [Selection.ofGrammar, Selection.rows]
    exact (Row.front_line (whole_inlineHeader condition) depth).braces below

/-- The selections of a definition stand in braces behind what may be prolonged. -/
theorem lead_selections {head : String → List Row} {depth : Nat} (heads : Row.Front head depth)
    {allowance : Nat} {selections : List Grammar.Selection}
    (fit : Grammar.SelectionsFit allowance selections)
    (legible : AllLegible (selectionTokens selections)) :
    Row.Lead (head " \x7b" ++ (rowsEach (depth + 1) (selectionsOf selections) ++
      [.line depth "\x7d"])) depth depth := by
  obtain ⟨nonempty, inner, rfl, fits⟩ := fit
  rw [selectionTokens_eq nonempty] at legible
  simp only [allLegible_append, allLegible_cons, allLegible_flatMap] at legible
  have below := fill_selections fun selection inside =>
    lead_selection (fits selection inside) (legible.2.1 selection inside) (depth + 1)
  exact heads.braces below

/-- The name of an operation lengthens its keyword. -/
theorem lengthens_nameText {operation : Operation}
    (legible : AllLegible (Grammar.nameTokens operation.name)) :
    Lengthens operation.nameText := by
  unfold Operation.nameText Operation.shownName?
  cases named : operation.name with
  | none => exact lengthens_empty
  | some name =>
    rw [named] at legible
    simp only [Grammar.nameTokens, allLegible_cons] at legible
    have shown : (some name).filter (fun name => !name.isEmpty) = some name := by
      simp [Option.filter, isEmpty_of_legible legible.1]
    rw [shown]
    exact (whole_name legible.1).spaced

/-- A written variable is whole, whatever its description and directives are. -/
theorem whole_variable {definition : Grammar.VariableDefinition}
    (legible : AllLegible definition.tokens) : Whole (Variable.ofGrammar definition).write := by
  obtain ⟨description, name, type, default, directives⟩ := definition
  simp only [Grammar.VariableDefinition.tokens, allLegible_append, allLegible_cons] at legible
  obtain ⟨-, -, named, -, typed, given, -⟩ := legible
  have bare : AllLegible (Grammar.VariableDefinition.tokens ⟨none, name, type, default, []⟩) := by
    simp [Grammar.VariableDefinition.tokens, Grammar.descriptionTokens, Grammar.directiveTokens,
      named, typed, given, legible_punctuator]
  have balanced : Balanced (Grammar.VariableDefinition.tokens ⟨none, name, type, default, []⟩) :=
    (balanced_type type).append ((balanced_default default).append balanced_nil)
  have woven := @woven_variable ⟨none, name, type, default, []⟩ rfl rfl bare
  exact ⟨_, woven, balanced⟩

/-- The variables of an operation lengthen its keyword and name. -/
theorem lengthens_variablesText {operation : Operation}
    {definitions : List Grammar.VariableDefinition}
    (taken : operation.variableDefinitions = definitions.map Variable.ofGrammar)
    (legible : ∀ definition ∈ definitions, AllLegible definition.tokens) :
    Lengthens operation.variablesText := by
  unfold Operation.variablesText
  rw [taken]
  cases definitions with
  | nil => exact lengthens_empty
  | cons first others =>
    have each : ∀ text ∈ ((first :: others).map Variable.ofGrammar).map Variable.write,
        Whole text := by
      rw [List.map_map, List.forall_mem_map]
      exact fun definition inside => whole_variable (legible definition inside)
    have enclosed := (whole_commas (by simp) each).parenthesised
    rw [if_neg (by simp)]
    split
    · exact enclosed.1.spaced
    · rw [String.empty_append]
      exact enclosed.2

/-- An operation leads from no open brackets to none. -/
theorem lead_operation {definition : Grammar.OperationDefinition} (fits : definition.Fits)
    (legible : AllLegible definition.tokens) :
    Row.Lead ((Operation.ofGrammar definition).rows 0) 0 0 := by
  simp only [Grammar.OperationDefinition.tokens, allLegible_append, allLegible_cons,
    Grammar.allLegible_enclosedTokens] at legible
  obtain ⟨-, keyword, name, entries, -, selections⟩ := legible
  have kind : Whole (Operation.ofGrammar definition).kind := whole_name keyword
  have named := @lengthens_nameText (Operation.ofGrammar definition) name
  have parameters := @lengthens_variablesText (Operation.ofGrammar definition) _ rfl entries
  have line := ((Row.front_line kind 0).append named).append parameters
  exact lead_selections line fits.selections selections

/-- A fragment leads from no open brackets to none. -/
theorem lead_fragment {definition : Grammar.FragmentDefinition} (fits : definition.Fits)
    (legible : AllLegible definition.tokens) :
    Row.Lead ((Fragment.ofGrammar definition).rows 0) 0 0 := by
  simp only [Grammar.FragmentDefinition.tokens, allLegible_append, allLegible_cons] at legible
  obtain ⟨-, keyword, name, on, type, -, selections⟩ := legible
  have header : Whole ("fragment " ++ definition.name ++ " on " ++ definition.typeCondition) := by
    have words := ((whole_name keyword).append (whole_name name).spaced).append
      ((whole_name on).append (whole_name type).spaced).spaced
    have text_eq : "fragment " ++ definition.name ++ " on " ++ definition.typeCondition =
        "fragment" ++ (" " ++ definition.name) ++
          (" " ++ ("on" ++ (" " ++ definition.typeCondition))) := by
      rw [← String.toList_inj]
      simp
    exact text_eq ▸ words
  exact lead_selections (Row.front_line header 0) fits.selections selections

/-- The canonical form of a definition leads from no open brackets to none. -/
theorem Definition.lead_canonical {source : Grammar.Definition} {definition : Definition}
    (taken : Definition.ofGrammar source = .ok definition) (fits : source.Fits)
    (legible : AllLegible source.tokens) : Row.Lead (definition.canonical.rows 0) 0 0 := by
  have arranged := Definition.ofGrammar_arranged source
  have arrangedFits := Grammar.Definition.fits_arranged fits
  have arrangedLegible := Grammar.Definition.legible_arranged legible
  rw [taken] at arranged
  cases source with
  | shorthand selections =>
    have canonical_eq := Except.ok.inj arranged
    rw [← canonical_eq]
    exact lead_operation arrangedFits arrangedLegible
  | operation operation =>
    have canonical_eq := Except.ok.inj arranged
    rw [← canonical_eq]
    exact lead_operation arrangedFits arrangedLegible
  | fragment fragment =>
    have canonical_eq := Except.ok.inj arranged
    rw [← canonical_eq]
    exact lead_fragment arrangedFits arrangedLegible
  | typeSystem _ | directive _ | extension _ => cases taken

end GraphQLCanon.Executable
