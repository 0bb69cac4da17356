import GraphQLCanon.Proofs.QueryArrangement
import GraphQLCanon.Proofs.QueryPieces
import GraphQLCanon.Proofs.SolidPieces

/-!
# Written queries

Where no directive stops it, the piece of an operation, a fragment or a selection adds
the tokens of its source. The source has to be one that the grammar admits and whose
tokens are legible, as every source that was read is.
-/

namespace GraphQLCanon.Executable

open GraphQLCanon.Grammar (Value AllLegible allLegible_cons allLegible_append allLegible_flatMap
  argumentTokens directiveTokens headerTokens conditionTokens selectionTokens enclosedTokens
  namedTokens spells_name woven_signed woven_spaced woven_word woven_label woven_named woven_value
  woven_typed)
open GraphQLCanon.Layout
open GraphQLCanon.Layout.Printing
open GraphQLCanon.Lexical

/-- The name of a field behind its alias is woven from both. -/
theorem woven_header {field : Field}
    (legible : AllLegible (headerTokens field.aliasName field.name)) :
    Woven field.header.toList (headerTokens field.aliasName field.name) := by
  unfold Field.header
  cases aliased : field.aliasName with
  | none =>
    simp only [aliased, headerTokens, allLegible_cons] at legible
    exact .token legible.1
  | some aliasName =>
    simp only [aliased, headerTokens, allLegible_cons] at legible
    have shown := isEmpty_of_legible legible.1
    simp only [shown, Bool.false_eq_true, if_false]
    rw [String.append_assoc, String.toList_append, String.toList_append]
    exact woven_label legible.1 (.token legible.2.2.1)

/-- Arguments add their tokens and the parentheses. -/
theorem seals_fieldArguments {arguments : List (String × Value)} (nonempty : arguments ≠ [])
    (legible : AllLegible (argumentTokens arguments)) :
    (Piece.arguments ((argumentsOf arguments).map Argument.write)).Seals
      (argumentTokens arguments) := by
  have written : (argumentsOf arguments).map Argument.write =
      arguments.map fun argument => argument.1 ++ ": " ++ argument.2.write := by
    simp [argumentsOf, Function.comp_def, Argument.write]
  have tokens_eq : argumentTokens arguments = .punctuator .openParenthesis ::
      (arguments.flatMap namedTokens ++ [.punctuator .closeParenthesis]) := by
    obtain ⟨first, others, rfl⟩ := List.exists_cons_of_ne_nil nonempty
    rfl
  rw [tokens_eq] at legible ⊢
  simp only [allLegible_cons, allLegible_append, allLegible_flatMap] at legible
  rw [written]
  apply Piece.seals_arguments
  intro argument inside
  have legibleArgument := legible.2.1 argument inside
  simp only [namedTokens, allLegible_cons] at legibleArgument
  exact (woven_named legibleArgument.1 (woven_value argument.2 legibleArgument.2.2)).spells

/-- A field up to its selections adds its name and arguments. -/
theorem spells_fieldPiece {aliasName : Option String} {name : String}
    {arguments : List (String × Value)} (directives : List String)
    (header : AllLegible (headerTokens aliasName name))
    (legible : AllLegible (argumentTokens arguments)) :
    (Field.piece ⟨name, aliasName, argumentsOf arguments, directives⟩).Spells
      (headerTokens aliasName name ++ argumentTokens arguments) := by
  have field : Lexical.Spells
      (Field.header ⟨name, aliasName, argumentsOf arguments, directives⟩).toList
      (headerTokens aliasName name) := (woven_header header).spells
  have written := Piece.spells_indented field
  unfold Field.piece
  cases arguments with
  | nil =>
    have nothing : argumentTokens [] = [] := rfl
    rw [if_pos (by simp [argumentsOf]), Piece.append_empty, nothing, List.append_nil]
    exact written
  | cons first others =>
    rw [if_neg (by simp [argumentsOf])]
    exact (written.append_seals (seals_fieldArguments (by simp) legible)).spells

/-- The tokens of selections, if there are any: the braces and what stands in them. -/
theorem selectionTokens_eq {selections : List Grammar.Selection} (nonempty : selections ≠ []) :
    selectionTokens selections = .punctuator .openBrace ::
      (selections.flatMap Grammar.Selection.tokens ++ [.punctuator .closeBrace]) := by
  obtain ⟨first, others, rfl⟩ := List.exists_cons_of_ne_nil nonempty
  rfl

/-- Selections add their tokens when each of them adds its own. -/
theorem closes_pieceEach {selections : List Grammar.Selection} (nonempty : selections ≠ [])
    (legible : AllLegible (selectionTokens selections))
    (unstopped : offenceEach? (selectionsOf selections) = none)
    (each : ∀ selection ∈ selections, AllLegible selection.tokens →
      (Selection.ofGrammar selection).offence? = none →
        (Selection.ofGrammar selection).piece.Closes selection.tokens) :
    (pieceEach (selectionsOf selections)).Closes (selections.flatMap Grammar.Selection.tokens) := by
  rw [selectionTokens_eq nonempty] at legible
  simp only [allLegible_cons, allLegible_append, allLegible_flatMap] at legible
  rw [offenceEach?_eq_firstOffence?, firstOffence?_eq_none, selectionsOf_eq_map,
    List.forall_mem_map] at unstopped
  rw [pieceEach_eq_concat, selectionsOf_eq_map, Piece.concat_map]
  refine Piece.closes_concat ?_
  exact fun selection inside =>
    each selection inside (legible.2.1 selection inside) (unstopped selection inside)

/-- Selections below others add their tokens in braces, and delimit what stands in front
of them. -/
theorem seals_selections {selections : List Grammar.Selection} (nonempty : selections ≠ [])
    (inside : (pieceEach (selectionsOf selections)).Closes
      (selections.flatMap Grammar.Selection.tokens)) (otherwise : Piece) :
    Piece.Seals (if (selectionsOf selections).isEmpty then otherwise
      else Piece.braces (pieceEach (selectionsOf selections))) (selectionTokens selections) := by
  have some? : (selectionsOf selections).isEmpty = false := by
    simpa [selectionsOf_eq_map] using nonempty
  simp only [some?, Bool.false_eq_true, if_false]
  rw [selectionTokens_eq nonempty]
  exact Piece.seals_braces inside

/-- The first line of an inline fragment is woven from the dots and the type condition. -/
theorem woven_inlineHeader {typeCondition : Option String}
    (legible : AllLegible (conditionTokens typeCondition)) :
    Woven (inlineHeader typeCondition).toList
      (.punctuator .ellipsis :: conditionTokens typeCondition) := by
  cases typeCondition with
  | none => exact Woven.sign .ellipsis
  | some type =>
    simp only [conditionTokens, allLegible_cons] at legible
    rw [inlineHeader, String.toList_append]
    exact woven_spaced .ellipsis (woven_word legible.1 (.token legible.2.1))

/-- A selection adds the tokens of its source where no directive stops it. -/
theorem closes_selection {allowance : Nat} {selection : Grammar.Selection}
    (fits : selection.Fits allowance) (legible : AllLegible selection.tokens)
    (unstopped : (Selection.ofGrammar selection).offence? = none) :
    (Selection.ofGrammar selection).piece.Closes selection.tokens := by
  -- On the derivation that the selection fits, which says that braces are never empty: an
  -- inline fragment without selections would not end its line.
  induction fits with
  | leaf aliasName name arguments directives argumentsFit directivesFit =>
    rw [Grammar.Selection.tokens_field] at legible ⊢
    simp only [allLegible_append] at legible
    simp only [Selection.ofGrammar, Selection.offence?, Option.or_eq_none_iff] at unstopped
    obtain rfl := directives_eq_nil unstopped.1
    have header := spells_fieldPiece [] legible.1 legible.2.1
    have line := header.append_seals Piece.seals_lineFeed
    rw [List.append_assoc] at line
    exact line
  | branch aliasName name arguments directives selections argumentsFit directivesFit nonempty _
    inductionHypothesis =>
    rw [Grammar.Selection.tokens_field] at legible ⊢
    simp only [allLegible_append] at legible
    simp only [Selection.ofGrammar, Selection.offence?, Option.or_eq_none_iff] at unstopped
    obtain rfl := directives_eq_nil unstopped.1
    have header := spells_fieldPiece [] legible.1 legible.2.1
    have inside := closes_pieceEach nonempty legible.2.2.2 unstopped.2 inductionHypothesis
    have below := seals_selections nonempty inside (Piece.text "\n")
    have whole := header.append_seals below
    rw [List.append_assoc] at whole
    exact whole
  | spread name directives free directivesFit =>
    simp only [Selection.ofGrammar, Selection.offence?] at unstopped
    obtain rfl := directives_eq_nil unstopped
    simp only [Grammar.Selection.tokens, allLegible_cons] at legible
    apply Piece.closes_indented
    apply Piece.closes_line
    rw [String.toList_append]
    exact (closes_punctuator .ellipsis).append_spells (spells_name legible.2.1)
  | inline typeCondition directives selections directivesFit nonempty _ inductionHypothesis =>
    rw [Grammar.Selection.tokens_inline] at legible ⊢
    simp only [allLegible_cons, allLegible_append] at legible
    simp only [Selection.ofGrammar, Selection.offence?, Option.or_eq_none_iff] at unstopped
    obtain rfl := directives_eq_nil unstopped.1
    have header := Piece.spells_indented (woven_inlineHeader legible.2.1).spells
    have inside := closes_pieceEach nonempty legible.2.2.2 unstopped.2 inductionHypothesis
    have below := seals_selections nonempty inside (Piece.text "")
    exact header.append_seals below

/-- The selections of a definition are its braces and what stands in them, with a line
feed behind. -/
theorem selectionsPiece_eq {selections : List Grammar.Selection} (nonempty : selections ≠ []) :
    selectionsPiece (selectionsOf selections) =
      Piece.block " \x7b\n" "\x7d" (pieceEach (selectionsOf selections)) ++ Piece.text "\n" := by
  have some? : (selectionsOf selections).isEmpty = false := by
    simpa [selectionsOf_eq_map] using nonempty
  simp only [selectionsPiece, some?, Bool.false_eq_true, if_false]
  exact Piece.braces_eq _

/-- The selections of a definition stand in braces behind its header where no directive
stops them. -/
theorem trails_selections {allowance : Nat} {selections : List Grammar.Selection}
    (fit : Grammar.SelectionsFit allowance selections)
    (legible : AllLegible (selectionTokens selections))
    (unstopped : offenceEach? (selectionsOf selections) = none) :
    (Piece.block " \x7b\n" "\x7d" (pieceEach (selectionsOf selections))).Trails
      (selectionTokens selections) := by
  obtain ⟨nonempty, inner, rfl, fits⟩ := fit
  rw [selectionTokens_eq nonempty]
  exact Piece.trails_enclosed (closes_pieceEach nonempty legible unstopped
    fun selection inside => closes_selection (fits selection inside))

/-- The definition of a variable is woven from its tokens when it has neither a description nor
directives. -/
theorem woven_variable {definition : Grammar.VariableDefinition}
    (undescribed : definition.description = none) (undirected : definition.directives = [])
    (legible : AllLegible definition.tokens) :
    Woven (Variable.write (Variable.ofGrammar definition)).toList definition.tokens := by
  obtain ⟨description, name, type, default, directives⟩ := definition
  obtain rfl : description = none := undescribed
  obtain rfl : directives = [] := undirected
  have tokens_eq : Grammar.VariableDefinition.tokens ⟨none, name, type, default, []⟩ =
      .punctuator .dollar :: .name name :: .punctuator .colon ::
        (type.tokens ++ Grammar.defaultTokens default) := by
    simp [Grammar.VariableDefinition.tokens, Grammar.descriptionTokens, Grammar.directiveTokens]
  rw [tokens_eq] at legible ⊢
  simp only [allLegible_cons, allLegible_append] at legible
  have typed := woven_typed legible.2.1 legible.2.2.2.1 legible.2.2.2.2
  have regrouped (type default : String) :
      "$" ++ name ++ ": " ++ type ++ default = "$" ++ (name ++ ": " ++ type ++ default) := by
    simp only [String.append_assoc]
  have written : (Variable.ofGrammar ⟨none, name, type, default, []⟩).write = _ :=
    regrouped type.write _
  rw [written, String.toList_append]
  exact woven_signed .dollar typed

/-- The name of an operation stands behind its keyword, if there is one. -/
theorem mayTrail_namePiece (operation : Operation)
    (legible : AllLegible (Grammar.nameTokens operation.name)) :
    operation.namePiece.MayTrail (Grammar.nameTokens operation.name) := by
  unfold Operation.namePiece Operation.shownName?
  cases named : operation.name with
  | none => exact .inr ⟨rfl, rfl⟩
  | some name =>
    rw [named] at legible
    simp only [Grammar.nameTokens, allLegible_cons] at legible
    have shown : (some name).filter (fun name => !name.isEmpty) = some name := by
      simp [Option.filter, isEmpty_of_legible legible.1]
    have spells : (Piece.text (" " ++ name)).Spells [.name name] := by
      apply Piece.spells_text
      rw [String.toList_append]
      exact Grammar.closes_space.append_spells (spells_name legible.1)
    rw [shown]
    exact .inl ⟨spells, Piece.delimits_text_append (by decide) (by decide) name,
      Piece.ends_text ((solid_name legible.1).2.append " ")⟩

/-- Variables in parentheses stand behind a name. They have neither descriptions nor
directives. -/
theorem trails_variables {definitions : List Grammar.VariableDefinition}
    (undescribed : ∀ definition ∈ definitions, definition.description = none)
    (undirected : ∀ definition ∈ definitions, definition.directives = [])
    (legible : ∀ definition ∈ definitions, AllLegible definition.tokens) :
    (Piece.text ("(" ++ ", ".intercalate ((definitions.map Variable.ofGrammar).map
      Variable.write) ++ ")")).Trails (.punctuator .openParenthesis ::
        (definitions.flatMap Grammar.VariableDefinition.tokens ++
          [.punctuator .closeParenthesis])) := by
  have each : ∀ definition ∈ definitions,
      Lexical.Spells (Variable.write (Variable.ofGrammar definition)).toList definition.tokens :=
    fun definition inside => (woven_variable (undescribed definition inside)
      (undirected definition inside) (legible definition inside)).spells
  have inside := (Grammar.spells_commas each).append_closes (closes_punctuator .closeParenthesis)
    (by decide) (by decide)
  have whole := (closes_punctuator .openParenthesis).append inside
  have written : ((definitions.map Variable.ofGrammar).map Variable.write) =
      definitions.map fun definition => (Variable.ofGrammar definition).write := by
    simp [Function.comp_def]
  have closing : EndsSolid ")" := ⟨[], ')', rfl, by decide⟩
  refine ⟨Piece.spells_text ?_, ?_, Piece.ends_text (closing.append _)⟩
  · rw [written, String.append_assoc, String.toList_append, String.toList_append]
    exact whole.spells
  · rw [String.append_assoc]
    exact Piece.delimits_text_append (by decide) (by decide) _

/-- The variables of an operation stand behind its keyword or name, if there are any. -/
theorem mayTrail_variablesPiece (operation : Operation)
    {definitions : List Grammar.VariableDefinition}
    (taken : operation.variableDefinitions = definitions.map Variable.ofGrammar)
    (undescribed : ∀ definition ∈ definitions, definition.description = none)
    (undirected : ∀ definition ∈ definitions, definition.directives = [])
    (legible : ∀ definition ∈ definitions, AllLegible definition.tokens) :
    operation.variablesPiece.MayTrail (enclosedTokens .openParenthesis .closeParenthesis
      Grammar.VariableDefinition.tokens definitions) := by
  have trails := trails_variables undescribed undirected legible
  unfold Operation.variablesPiece enclosedTokens
  rw [taken, List.isEmpty_map]
  split
  · exact .inr ⟨rfl, rfl⟩
  · refine .inl ?_
    cases operation.shownName?.isNone with
    | true =>
      exact ⟨(Piece.closes_text Grammar.closes_space).append_spells trails.spells,
        (Piece.delimits_text (by decide) (by decide)).append _, trails.ends.append _⟩
    | false =>
      rw [if_neg (by simp), Piece.empty_append]
      exact trails

/-- An operation spells its tokens where no directive stops it and no description is
lost. -/
theorem rounded_operation {definition : Grammar.OperationDefinition} (fits : definition.Fits)
    (legible : AllLegible definition.tokens) (plain : definition.description = none)
    (undescribed : ∀ entry ∈ definition.variableDefinitions, entry.description = none)
    (unstopped : (Operation.ofGrammar definition).offence? = none) :
    (Operation.ofGrammar definition).piece.Rounded definition.tokens := by
  simp only [Operation.offence?, Option.or_eq_none_iff, firstOffence?_eq_none] at unstopped
  obtain ⟨own, entries, below⟩ := unstopped
  have undirected : definition.directives = [] := directives_eq_nil own
  have bare : ∀ entry ∈ definition.variableDefinitions, entry.directives = [] :=
    fun entry inside => directives_eq_nil (entries _ (List.mem_map.2 ⟨entry, inside, rfl⟩))
  have tokens_eq : definition.tokens = [.name definition.operation.keyword] ++
      Grammar.nameTokens definition.name ++ enclosedTokens .openParenthesis .closeParenthesis
        Grammar.VariableDefinition.tokens definition.variableDefinitions ++
          selectionTokens definition.selections := by
    simp [Grammar.OperationDefinition.tokens, plain, undirected, Grammar.descriptionTokens,
      directiveTokens]
  rw [tokens_eq] at legible ⊢
  simp only [allLegible_append, allLegible_cons, Grammar.allLegible_enclosedTokens] at legible
  obtain ⟨⟨⟨⟨keyword, -⟩, name⟩, variableTokens⟩, selections⟩ := legible
  have word : (Piece.indented definition.operation.keyword).Solid
      [.name definition.operation.keyword] :=
    ⟨Piece.spells_indented (spells_name keyword), Piece.begins_indented (solid_name keyword).1,
      Piece.ends_indented (solid_name keyword).2⟩
  have named := word.append_mayTrail (mayTrail_namePiece (Operation.ofGrammar definition) name)
  have withVariables := named.append_mayTrail
    (mayTrail_variablesPiece (Operation.ofGrammar definition) rfl undescribed bare variableTokens)
  have whole := withVariables.append (trails_selections fits.selections selections below)
  have line := selectionsPiece_eq fits.selections.1
  have piece_eq : (Operation.ofGrammar definition).piece =
      Piece.indented definition.operation.keyword ++ (Operation.ofGrammar definition).namePiece ++
        (Operation.ofGrammar definition).variablesPiece ++ Piece.block " \x7b\n" "\x7d"
          (pieceEach (selectionsOf definition.selections)) ++ Piece.text "\n" := by
    rw [Piece.append_assoc, Piece.append_assoc, Piece.append_assoc, ← line]
    rfl
  rw [piece_eq]
  exact whole.rounded

/-- The first line of a fragment is woven from its keyword, name and type condition. -/
theorem woven_fragmentHeader {name typeCondition : String}
    (legible : AllLegible [.name "fragment", .name name, .name "on", .name typeCondition]) :
    Woven ("fragment " ++ name ++ " on " ++ typeCondition).toList
      [.name "fragment", .name name, .name "on", .name typeCondition] := by
  simp only [allLegible_cons] at legible
  obtain ⟨keyword, named, word, type, -⟩ := legible
  have whole := woven_word keyword (woven_word named (woven_word word (.token type)))
  rw [String.append_assoc, String.append_assoc, String.toList_append, String.toList_append,
    String.toList_append]
  exact whole

/-- The first line of a fragment spells its keyword, name and type condition. -/
theorem solid_fragmentHeader {name typeCondition : String}
    (legible : AllLegible [.name "fragment", .name name, .name "on", .name typeCondition]) :
    (Piece.indented ("fragment " ++ name ++ " on " ++ typeCondition)).Solid
      [.name "fragment", .name name, .name "on", .name typeCondition] := by
  have woven := woven_fragmentHeader legible
  exact ⟨Piece.spells_indented woven.spells, Piece.begins_indented woven.begins,
    Piece.ends_indented woven.ends⟩

/-- A fragment spells its tokens where no directive stops it and no description is lost. -/
theorem rounded_fragment {definition : Grammar.FragmentDefinition} (fits : definition.Fits)
    (legible : AllLegible definition.tokens) (plain : definition.description = none)
    (unstopped : (Fragment.ofGrammar definition).offence? = none) :
    (Fragment.ofGrammar definition).piece.Rounded definition.tokens := by
  simp only [Fragment.offence?, Option.or_eq_none_iff] at unstopped
  have undirected : definition.directives = [] := directives_eq_nil unstopped.1
  have tokens_eq : definition.tokens = [.name "fragment", .name definition.name, .name "on",
      .name definition.typeCondition] ++ selectionTokens definition.selections := by
    simp [Grammar.FragmentDefinition.tokens, plain, undirected, Grammar.descriptionTokens,
      directiveTokens]
  rw [tokens_eq] at legible ⊢
  rw [allLegible_append] at legible
  have header := solid_fragmentHeader legible.1
  have selections := trails_selections fits.selections legible.2 unstopped.2
  have line := selectionsPiece_eq fits.selections.1
  have piece_eq : (Fragment.ofGrammar definition).piece =
      Piece.indented ("fragment " ++ definition.name ++ " on " ++ definition.typeCondition) ++
        Piece.block " \x7b\n" "\x7d" (pieceEach (selectionsOf definition.selections)) ++
          Piece.text "\n" := by
    rw [Piece.append_assoc, ← line]
    rfl
  rw [piece_eq]
  exact (header.append selections).rounded

/-- The canonical form of a definition spells the tokens of its arranged source where no
directive stops it. -/
theorem Definition.rounded_canonical {source : Grammar.Definition} {definition : Definition}
    (taken : Definition.ofGrammar source = .ok definition) (fits : source.Fits)
    (legible : AllLegible source.tokens) (unstopped : definition.canonical.offence? = none) :
    definition.canonical.piece.Rounded source.arranged.tokens := by
  have arranged := Definition.ofGrammar_arranged source
  have arrangedFits := Grammar.Definition.fits_arranged fits
  have arrangedLegible := Grammar.Definition.legible_arranged legible
  rw [taken] at arranged
  cases source with
  | shorthand selections =>
    have canonical_eq := Except.ok.inj arranged
    rw [← canonical_eq] at unstopped ⊢
    exact rounded_operation arrangedFits arrangedLegible rfl (by simp) unstopped
  | operation operation =>
    have canonical_eq := Except.ok.inj arranged
    rw [← canonical_eq] at unstopped ⊢
    exact rounded_operation arrangedFits arrangedLegible rfl (by simp) unstopped
  | fragment fragment =>
    have canonical_eq := Except.ok.inj arranged
    rw [← canonical_eq] at unstopped ⊢
    exact rounded_fragment arrangedFits arrangedLegible rfl unstopped
  | typeSystem _ | directive _ | extension _ => cases taken

/-- The definitions of a canonical form spell the tokens of those of its arranged source where
no directive stops it. -/
theorem Document.rounded_canonical {definitions : List Grammar.Definition} {document : Document}
    (taken : Document.ofGrammar definitions = .ok document)
    (fit : ∀ definition ∈ definitions, definition.Fits)
    (legible : ∀ definition ∈ definitions, AllLegible definition.tokens)
    (unstopped : document.canonical.offence? = none) :
    List.Forall₂ (fun (source : Grammar.Definition) (definition : Definition) =>
      definition.piece.Rounded source.tokens) (definitions.map Grammar.Definition.arranged)
        document.canonical.definitions := by
  have each := Document.ofGrammar_eq_ok.1 taken
  rw [Document.offence?, firstOffence?_eq_none, Document.canonical,
    List.forall_mem_map] at unstopped
  rw [Document.canonical, List.forall₂_map_left_iff, List.forall₂_map_right_iff,
    List.forall₂_iff_zip]
  refine ⟨each.length_eq, fun {source definition} inside => ?_⟩
  have sourceInside := (List.of_mem_zip inside).1
  have definitionInside := (List.of_mem_zip inside).2
  exact Definition.rounded_canonical ((List.forall₂_iff_zip.1 each).2 inside)
    (fit source sourceInside) (legible source sourceInside)
    (unstopped definition definitionInside)

/-- The canonical form of a document spells the tokens of its arranged source where no
directive stops it. -/
theorem Document.spells_canonical {definitions : List Grammar.Definition} {document : Document}
    (taken : Document.ofGrammar definitions = .ok document) (nonempty : definitions ≠ [])
    (fit : ∀ definition ∈ definitions, definition.Fits)
    (legible : ∀ definition ∈ definitions, AllLegible definition.tokens)
    (unstopped : document.canonical.offence? = none) (indentWidth maxWidth : Int) :
    Lexical.Spells
      (Text.strip (document.canonical.piece (.start indentWidth maxWidth))).toList
      ((definitions.map Grammar.Definition.arranged).flatMap Grammar.Definition.tokens) := by
  have pairs := Document.rounded_canonical taken fit legible unstopped
  have some : document.canonical.definitions ≠ [] := by
    intro nothing
    rw [nothing, List.forall₂_nil_right_iff] at pairs
    exact nonempty (List.map_eq_nil_iff.1 pairs)
  exact Piece.spells_strip_concat pairs some indentWidth maxWidth

end GraphQLCanon.Executable
