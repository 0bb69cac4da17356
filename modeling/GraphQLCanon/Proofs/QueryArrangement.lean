import GraphQLCanon.Executable.OfGrammar
import GraphQLCanon.Proofs.Admissible
import GraphQLCanon.Proofs.Itemwise
import GraphQLCanon.Proofs.SelectionOrder
import GraphQLCanon.Proofs.TokenOrder

/-!
# Sources of canonical queries

The canonical form of a query document has a source: the source of the document with
its selections and arguments in order, a keyword for every shorthand and no
descriptions. It is admitted by the grammar when the first source is, and has the same
tokens apart from that.
-/

namespace GraphQLCanon.Grammar

open GraphQLCanon.Lexical

/-- A property of selections holds of all when it holds of each whose selections below
have it. -/
theorem Selection.induct {motive : Selection → Prop}
    (field : ∀ aliasName name arguments directives selections,
      (∀ selection ∈ selections, motive selection) →
        motive (.field aliasName name arguments directives selections))
    (spread : ∀ name directives, motive (.spread name directives))
    (inline : ∀ typeCondition directives selections,
      (∀ selection ∈ selections, motive selection) →
        motive (.inline typeCondition directives selections)) :
    ∀ selection, motive selection := by
  intro selection
  refine @Selection.rec motive (fun selections => ∀ selection ∈ selections, motive selection)
    field spread inline ?_ ?_ selection
  · simp
  · intro first others firstHolds othersHold
    simpa using ⟨firstHolds, othersHold⟩

/-- What a selection of a source is ordered by. -/
def Selection.key (selection : Selection) : Executable.SelectionKey :=
  (Executable.Selection.ofGrammar selection).key

/-- Selections of a source in the order of their keys. -/
def sortSelections (selections : List Selection) : List Selection :=
  selections.mergeSort fun left right => left.key.le right.key

mutual

/-- A selection of a source with everything below it in canonical order. -/
def Selection.arranged : Selection → Selection
  | .field aliasName name arguments directives selections =>
    .field aliasName name (Text.sortOn Prod.fst arguments) directives
      (sortSelections (arrangedEach selections))
  | .spread name directives => .spread name directives
  | .inline typeCondition directives selections =>
    .inline typeCondition directives (sortSelections (arrangedEach selections))

/-- Selections of a source in their own order, with everything below them in canonical
order. -/
def arrangedEach : List Selection → List Selection
  | [] => []
  | selection :: selections => selection.arranged :: arrangedEach selections

end

/-- A selection set of a source in canonical order at every depth. -/
def arrangedSelections (selections : List Selection) : List Selection :=
  sortSelections (arrangedEach selections)

/-- Selections are arranged one by one below their own level. -/
theorem arrangedEach_eq_map (selections : List Selection) :
    arrangedEach selections = selections.map Selection.arranged := by
  induction selections with
  | nil => rfl
  | cons first others inductionHypothesis => rw [arrangedEach, inductionHypothesis, List.map_cons]

/-- A selection set in canonical order is a permutation of its selections, each with
everything below it in canonical order. -/
theorem arrangedSelections_perm (selections : List Selection) :
    (arrangedSelections selections).Perm (selections.map Selection.arranged) := by
  rw [arrangedSelections, arrangedEach_eq_map]
  exact List.mergeSort_perm _ _

/-- A definition with its selections in canonical order, its descriptions dropped and
the keyword of a shorthand written. -/
def Definition.arranged : Definition → Definition
  | shorthand selections => .operation ⟨none, .query, none, [], [], arrangedSelections selections⟩
  | operation definition =>
    .operation { definition with
      description := none
      variableDefinitions :=
        definition.variableDefinitions.map fun entry => { entry with description := none }
      selections := arrangedSelections definition.selections }
  | fragment definition =>
    .fragment { definition with
      description := none
      selections := arrangedSelections definition.selections }
  | typeSystem definition => .typeSystem definition
  | directive definition => .directive definition
  | extension addition => .extension addition

end GraphQLCanon.Grammar

namespace GraphQLCanon.Executable

open GraphQLCanon.Grammar (sortSelections arrangedEach arrangedEach_eq_map arrangedSelections)

/-- Selections are taken from the source one by one. -/
theorem selectionsOf_eq_map (selections : List Grammar.Selection) :
    selectionsOf selections = selections.map Selection.ofGrammar := by
  induction selections with
  | nil => rfl
  | cons first others inductionHypothesis => rw [selectionsOf, inductionHypothesis, List.map_cons]

/-- The selections of an arranged set are the canonical selections of the set. -/
theorem selectionsOf_arrangedSelections {selections : List Grammar.Selection}
    (each : ∀ selection ∈ selections,
      Selection.ofGrammar selection.arranged = (Selection.ofGrammar selection).canonical) :
    selectionsOf (arrangedSelections selections) =
      canonicalSelections (selectionsOf selections) := by
  have sorted : (arrangedSelections selections).map Selection.ofGrammar =
      Executable.sortSelections ((arrangedEach selections).map Selection.ofGrammar) :=
    List.map_mergeSort fun _ _ _ _ => rfl
  have changed : (arrangedEach selections).map Selection.ofGrammar =
      canonicalEach (selectionsOf selections) := by
    rw [arrangedEach_eq_map, canonicalEach_eq_map, selectionsOf_eq_map, List.map_map, List.map_map]
    exact List.map_congr_left each
  rw [selectionsOf_eq_map, sorted, changed]
  rfl

/-- An arranged selection is a source of the canonical form of the selection. -/
theorem Selection.ofGrammar_arranged (selection : Grammar.Selection) :
    Selection.ofGrammar selection.arranged = (Selection.ofGrammar selection).canonical := by
  induction selection using Grammar.Selection.induct with
  | field aliasName name arguments directives selections inductionHypothesis =>
    have below := selectionsOf_arrangedSelections inductionHypothesis
    have sorted : argumentsOf (Text.sortOn Prod.fst arguments) =
        Text.sortOn Argument.name (argumentsOf arguments) :=
      Text.map_sortOn Prod.fst Argument.name _ (fun _ => rfl) arguments
    unfold arrangedSelections canonicalSelections at below
    simp only [Grammar.Selection.arranged, Selection.ofGrammar, Selection.canonical,
      Field.canonical, below, sorted]
  | spread name directives => rfl
  | inline typeCondition directives selections inductionHypothesis =>
    have below := selectionsOf_arrangedSelections inductionHypothesis
    unfold arrangedSelections canonicalSelections at below
    simp only [Grammar.Selection.arranged, Selection.ofGrammar, Selection.canonical, below]

/-- An arranged definition is a source of the canonical form of the definition. -/
theorem Definition.ofGrammar_arranged (definition : Grammar.Definition) :
    Definition.ofGrammar definition.arranged =
      (Definition.ofGrammar definition).map Definition.canonical := by
  have below (selections : List Grammar.Selection) :
      selectionsOf (arrangedSelections selections) =
        canonicalSelections (selectionsOf selections) :=
    selectionsOf_arrangedSelections fun selection _ => Selection.ofGrammar_arranged selection
  cases definition with
  | shorthand selections =>
    simp only [Grammar.Definition.arranged, Definition.ofGrammar, Operation.ofGrammar, below,
      Except.map, Definition.canonical, Grammar.directiveNames, List.map_nil]
  | operation source =>
    have entries : (source.variableDefinitions.map fun entry =>
        { entry with description := none }).map Variable.ofGrammar =
          source.variableDefinitions.map Variable.ofGrammar := by
      simp [Function.comp_def, Variable.ofGrammar]
    simp only [Grammar.Definition.arranged, Definition.ofGrammar, Operation.ofGrammar, below,
      entries, Except.map, Definition.canonical]
  | fragment source =>
    simp only [Grammar.Definition.arranged, Definition.ofGrammar, Fragment.ofGrammar, below,
      Except.map, Definition.canonical]
  | typeSystem source => rfl
  | directive source => rfl
  | extension addition => rfl

/-- A document is taken from a source definition by definition. -/
theorem Document.ofGrammar_eq_ok {definitions : List Grammar.Definition} {document : Document} :
    Document.ofGrammar definitions = .ok document ↔
      List.Forall₂ (fun source definition => Definition.ofGrammar source = .ok definition)
        definitions document.definitions := by
  rw [← mapM_eq_ok_iff, Document.ofGrammar]
  cases definitions.mapM Definition.ofGrammar with
  | error construct => simp [Except.map]
  | ok taken =>
    obtain ⟨kept⟩ := document
    simp [Except.map]

/-- The arranged source of a document is a source of its canonical form. -/
theorem Document.ofGrammar_arranged {definitions : List Grammar.Definition} {document : Document}
    (taken : Document.ofGrammar definitions = .ok document) :
    Document.ofGrammar (definitions.map Grammar.Definition.arranged) =
      .ok document.canonical := by
  rw [Document.ofGrammar_eq_ok] at taken ⊢
  rw [Document.canonical, List.forall₂_map_left_iff, List.forall₂_map_right_iff]
  refine taken.imp fun source definition one => ?_
  rw [Definition.ofGrammar_arranged, one]
  rfl

/-- A source of an executable definition is an operation or a fragment. -/
theorem isExecutable_of_ofGrammar {source : Grammar.Definition} {definition : Definition}
    (taken : Definition.ofGrammar source = .ok definition) : source.isExecutable = true := by
  cases source <;> first | rfl | cases taken

/-- The source of an executable document holds operations and fragments only. -/
theorem Document.executable_of_ofGrammar {definitions : List Grammar.Definition}
    {document : Document} (taken : Document.ofGrammar definitions = .ok document) :
    ∀ definition ∈ definitions, definition.isExecutable = true := by
  have each := (Document.ofGrammar_eq_ok.1 taken).imp fun source definition one =>
    And.intro (isExecutable_of_ofGrammar one) one
  exact (List.forall₂_and_left _ _).1 each |>.1

end GraphQLCanon.Executable

namespace GraphQLCanon.Grammar

open GraphQLCanon.Lexical

/-- Names of arguments are put in order and their values kept. -/
theorem argumentsFit_sortOn {constant : Bool} {allowance : Nat} {arguments : List (String × Value)}
    (fit : ArgumentsFit constant allowance arguments) :
    ArgumentsFit constant allowance (Text.sortOn Prod.fst arguments) :=
  fun argument inside => fit argument ((Text.sortOn_perm Prod.fst arguments).mem_iff.1 inside)

/-- An arranged set holds something when the set does. -/
theorem arrangedSelections_ne_nil {selections : List Selection} (nonempty : selections ≠ []) :
    arrangedSelections selections ≠ [] := by
  intro nothing
  have permuted := arrangedSelections_perm selections
  rw [nothing] at permuted
  exact nonempty (List.map_eq_nil_iff.1 permuted.nil_eq.symm)

/-- What holds of every arranged selection of a set holds in the arranged set. -/
theorem forall_mem_arrangedSelections {valid : Selection → Prop} {selections : List Selection}
    (each : ∀ selection ∈ selections, valid selection.arranged) :
    ∀ selection ∈ arrangedSelections selections, valid selection := by
  intro selection inside
  obtain ⟨source, member, rfl⟩ :=
    List.mem_map.1 ((arrangedSelections_perm selections).mem_iff.1 inside)
  exact each source member

/-- A selection that fits does so with everything below it in canonical order. -/
theorem fits_arranged {allowance : Nat} {selection : Selection} (fits : selection.Fits allowance) :
    selection.arranged.Fits allowance := by
  induction fits with
  | leaf aliasName name arguments directives argumentsFit directivesFit =>
    have bare : sortSelections (arrangedEach []) = [] := by simp [sortSelections, arrangedEach]
    rw [Selection.arranged, bare]
    exact .leaf aliasName name _ directives (argumentsFit_sortOn argumentsFit) directivesFit
  | branch aliasName name arguments directives selections argumentsFit directivesFit nonempty _
    inductionHypothesis =>
    rw [Selection.arranged]
    exact .branch aliasName name _ directives _ (argumentsFit_sortOn argumentsFit) directivesFit
      (arrangedSelections_ne_nil nonempty) (forall_mem_arrangedSelections inductionHypothesis)
  | spread name directives free directivesFit =>
    exact .spread name directives free directivesFit
  | inline typeCondition directives selections directivesFit nonempty _ inductionHypothesis =>
    rw [Selection.arranged]
    exact .inline typeCondition directives _ directivesFit (arrangedSelections_ne_nil nonempty)
      (forall_mem_arrangedSelections inductionHypothesis)

/-- A selection set that fits does so in canonical order. -/
theorem selectionsFit_arranged {allowance : Nat} {selections : List Selection}
    (fit : SelectionsFit allowance selections) :
    SelectionsFit allowance (arrangedSelections selections) := by
  obtain ⟨nonempty, inner, rfl, fits⟩ := fit
  exact ⟨arrangedSelections_ne_nil nonempty, inner, rfl, forall_mem_arrangedSelections
    fun selection inside => fits_arranged (fits selection inside)⟩

/-- A selection set has the same tokens in canonical order when its selections have. -/
theorem selectionTokens_perm {selections : List Selection}
    (each : ∀ selection ∈ selections, selection.arranged.tokens.Perm selection.tokens) :
    (selectionTokens (arrangedSelections selections)).Perm (selectionTokens selections) := by
  exact (enclosedTokens_perm _ _ (arrangedSelections_perm selections)).trans
    (enclosedTokens_map_perm _ _ each)

/-- A selection has the same tokens with everything below it in canonical order. -/
theorem tokens_arranged_perm (selection : Selection) :
    selection.arranged.tokens.Perm selection.tokens := by
  induction selection using Selection.induct with
  | field aliasName name arguments directives selections inductionHypothesis =>
    rw [Selection.arranged, Selection.tokens_field, Selection.tokens_field]
    refine .append_left _ (.append ?_ (.append_left _ (selectionTokens_perm inductionHypothesis)))
    exact enclosedTokens_perm _ _ (Text.sortOn_perm Prod.fst arguments)
  | spread name directives => exact .refl _
  | inline typeCondition directives selections inductionHypothesis =>
    rw [Selection.arranged, Selection.tokens_inline, Selection.tokens_inline]
    exact .cons _ (.append_left _ (.append_left _ (selectionTokens_perm inductionHypothesis)))

/-- A definition that fits does so arranged. -/
theorem Definition.fits_arranged {definition : Definition} (fits : definition.Fits) :
    definition.arranged.Fits := by
  cases definition with
  | shorthand selections =>
    exact ⟨by simp, by simp [DirectivesFit], selectionsFit_arranged fits⟩
  | operation source =>
    refine ⟨?_, fits.directives, selectionsFit_arranged fits.selections⟩
    rw [List.forall_mem_map]
    intro entry inside
    have entryFits := fits.variableDefinitions entry inside
    exact ⟨entryFits.type, entryFits.default, entryFits.directives⟩
  | fragment source => exact ⟨fits.name, fits.directives, selectionsFit_arranged fits.selections⟩
  | typeSystem source => exact fits
  | directive source => exact fits
  | extension addition => exact fits

/-- The tokens of an arranged definition are legible when those of the definition
are. -/
theorem Definition.legible_arranged {definition : Definition}
    (legible : AllLegible definition.tokens) : AllLegible definition.arranged.tokens := by
  have sets {selections : List Selection} (set : AllLegible (selectionTokens selections)) :
      AllLegible (selectionTokens (arrangedSelections selections)) :=
    set.of_perm (selectionTokens_perm fun selection _ => tokens_arranged_perm selection)
  cases definition with
  | shorthand selections =>
    have keyword : (Token.name "query").Legible :=
      legible_name ⟨'q', "uery".toList, rfl, by decide, List.all_eq_true.1 (by decide)⟩
    simpa [Definition.arranged, Definition.tokens, OperationDefinition.tokens, descriptionTokens,
      nameTokens, enclosedTokens, directiveTokens, OperationType.keyword] using
        And.intro keyword (sets legible)
  | operation source =>
    simp only [Definition.arranged, Definition.tokens, OperationDefinition.tokens,
      allLegible_append, allLegible_cons] at legible ⊢
    obtain ⟨-, keyword, name, entries, directives, selections⟩ := legible
    refine ⟨allLegible_nil, keyword, name, ?_, directives, sets selections⟩
    simp only [allLegible_enclosedTokens, List.forall_mem_map] at entries ⊢
    intro entry inside
    have entryLegible := entries entry inside
    simp only [VariableDefinition.tokens, allLegible_append] at entryLegible ⊢
    exact ⟨allLegible_nil, entryLegible.2⟩
  | fragment source =>
    simp only [Definition.arranged, Definition.tokens, FragmentDefinition.tokens,
      allLegible_append, allLegible_cons] at legible ⊢
    obtain ⟨-, keyword, name, word, type, directives, selections⟩ := legible
    exact ⟨allLegible_nil, keyword, name, word, type, directives, sets selections⟩
  | typeSystem source => exact legible
  | directive source => exact legible
  | extension addition => exact legible

end GraphQLCanon.Grammar
