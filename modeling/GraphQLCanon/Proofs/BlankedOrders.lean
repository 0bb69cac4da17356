import GraphQLCanon.Proofs.BlankedStrings
import GraphQLCanon.Proofs.SchemaArrangement

/-!
# Definitions whose order shows without their strings

No string takes part in what a definition is ordered by. So a definition that has the outline
of its canonical form, the values of strings apart, is in canonical order already.
-/

namespace GraphQLCanon.Text

variable {α κ : Type} {le : κ → κ → Bool}

/-- Items that look like the changed items in order are in order, and not changed, when neither
the look nor the change touches what they are ordered by. -/
theorem mergeSort_map_eq_self (linear : LinearKeys le) {key : α → κ} (look change : α → α)
    {items : List α} (looked : ∀ item, key (look item) = key item)
    (kept : ∀ item, key (change item) = key item)
    (each : ∀ item ∈ items, look item = look (change item) → change item = item)
    (same : items.map look =
      ((items.map change).mergeSort fun left right => le (key left) (key right)).map look) :
    (items.map change).mergeSort (fun left right => le (key left) (key right)) = items := by
  let sorted := (items.map change).mergeSort fun left right => le (key left) (key right)
  have keys : sorted.map key = items.map key := by
    have through : (sorted.map look).map key = (items.map look).map key := by rw [same]
    simpa only [List.map_map, Function.comp_def, looked] using through
  have ordered : (items.map key).Pairwise fun left right => le left right = true := by
    rw [← keys, List.pairwise_map]
    exact List.pairwise_mergeSort (linear.trans_on key) (linear.total_on key) _
  have already : sorted = items.map change := by
    apply List.mergeSort_of_pairwise
    rw [List.pairwise_map] at ordered ⊢
    simpa only [kept] using ordered
  rw [show (items.map change).mergeSort _ = items.map change from already, List.map_map,
    List.map_inj_left] at same
  rw [show (items.map change).mergeSort _ = items.map change from already]
  refine (List.map_congr_left fun item inside => ?_).trans (List.map_id items)
  exact each item inside (same item inside)

/-- Items that look like themselves in the order of their names are in that order. -/
theorem sortOn_eq_self {name : α → String} (look : α → α) {items : List α}
    (looked : ∀ item, name (look item) = name item)
    (same : items.map look = (sortOn name items).map look) : sortOn name items = items := by
  have sorted := mergeSort_map_eq_self linearKeys_nameLe look id looked (fun _ => rfl)
    (fun _ _ _ => rfl) (by rw [List.map_id]; exact same)
  rwa [List.map_id] at sorted

end GraphQLCanon.Text

namespace GraphQLCanon.Grammar

section Selections

/-- A selection keeps its key with everything below it in canonical order. -/
theorem Selection.key_arranged (selection : Selection) :
    selection.arranged.key = selection.key := by
  rw [Selection.key, Executable.Selection.ofGrammar_arranged, Executable.Selection.key_canonical,
    Selection.key]

/-- A selection keeps its key with the empty string in place of every string. -/
theorem Selection.key_blanked (selection : Selection) : selection.blanked.key = selection.key := by
  cases selection with
  | field aliasName name arguments directives selections =>
    simp only [Selection.key, Selection.blanked, Executable.Selection.ofGrammar,
      Executable.Selection.key, Selection.blankedEach_eq_map, Executable.selectionsOf_eq_map,
      List.isEmpty_map]
  | spread name directives => rfl
  | inline typeCondition directives selections => cases typeCondition <;> rfl

/-- Selections that look as they do in canonical order are in canonical order when it holds of
each of them. -/
theorem arrangedSelections_eq_of_each {selections : List Selection}
    (each : ∀ selection ∈ selections, selection.blanked = selection.arranged.blanked →
      selection.arranged = selection)
    (same : selections.map Selection.blanked =
      (arrangedSelections selections).map Selection.blanked) :
    arrangedSelections selections = selections := by
  rw [arrangedSelections, arrangedEach_eq_map] at same ⊢
  exact Text.mergeSort_map_eq_self Executable.linearKeys_selectionKey _ _ Selection.key_blanked
    Selection.key_arranged each same

/-- Arguments that look as they do in order are in order. -/
theorem sortOn_arguments_eq_self {arguments : List (String × Value)}
    (same : arguments.map blankedArgument =
      (Text.sortOn Prod.fst arguments).map blankedArgument) :
    Text.sortOn Prod.fst arguments = arguments :=
  Text.sortOn_eq_self blankedArgument (fun _ => rfl) same

/-- A selection that looks as it does in canonical order is in canonical order. -/
theorem Selection.arranged_eq_self (selection : Selection)
    (same : selection.blanked = selection.arranged.blanked) :
    selection.arranged = selection := by
  induction selection using Selection.induct with
  | field aliasName name arguments directives selections inductionHypothesis =>
    have below := arrangedSelections_eq_of_each inductionHypothesis
    unfold arrangedSelections at below
    simp only [Selection.arranged, Selection.blanked, Selection.blankedEach_eq_map,
      Selection.field.injEq, true_and] at same ⊢
    exact ⟨sortOn_arguments_eq_self same.1, below same.2⟩
  | spread name directives => rfl
  | inline typeCondition directives selections inductionHypothesis =>
    have below := arrangedSelections_eq_of_each inductionHypothesis
    unfold arrangedSelections at below
    simp only [Selection.arranged, Selection.blanked, Selection.blankedEach_eq_map,
      Selection.inline.injEq, true_and] at same ⊢
    exact below same

/-- Selections that look as they do in canonical order are in canonical order. -/
theorem arrangedSelections_eq_self {selections : List Selection}
    (same : selections.map Selection.blanked =
      (arrangedSelections selections).map Selection.blanked) :
    arrangedSelections selections = selections :=
  arrangedSelections_eq_of_each (fun selection _ => selection.arranged_eq_self) same

/-- There is no description where there is none without its value. -/
theorem eq_none_of_blankedDescription {description : Option String}
    (same : blankedDescription description = none) : description = none :=
  Option.map_eq_none_iff.1 same

/-- An operation or fragment that looks as it does in canonical order is in canonical order, and
no shorthand. -/
theorem Definition.arranged_eq_self {definition : Definition}
    (same : definition.blanked = definition.arranged.blanked) :
    definition.arranged = definition := by
  cases definition with
  | shorthand selections => cases same
  | operation source =>
    obtain ⟨description, operation, name, entries, directives, selections⟩ := source
    simp only [arranged, blanked, OperationDefinition.blanked, Definition.operation.injEq,
      OperationDefinition.mk.injEq, true_and, List.map_map] at same ⊢
    obtain ⟨described, entered, sorted⟩ := same
    refine ⟨(eq_none_of_blankedDescription described).symm, ?_,
      arrangedSelections_eq_self sorted⟩
    refine (List.map_congr_left fun entry inside => ?_).trans (List.map_id entries)
    have bare := congrArg VariableDefinition.description (List.map_inj_left.1 entered entry inside)
    obtain ⟨given, name, type, default, directives⟩ := entry
    have given := eq_none_of_blankedDescription bare
    simp only at given
    rw [given]
    rfl
  | fragment source =>
    obtain ⟨description, name, typeCondition, directives, selections⟩ := source
    simp only [arranged, blanked, FragmentDefinition.blanked, Definition.fragment.injEq,
      FragmentDefinition.mk.injEq, true_and] at same ⊢
    exact ⟨(eq_none_of_blankedDescription same.1).symm, arrangedSelections_eq_self same.2⟩
  | typeSystem source | directive source | extension source => rfl

end Selections

section Schemas

/-- Argument definitions or input fields that look as they do in order are in order. -/
theorem sortOn_inputValues_eq_self {values : List InputValueDefinition}
    (same : values.map InputValueDefinition.blanked =
      (Text.sortOn InputValueDefinition.name values).map InputValueDefinition.blanked) :
    Text.sortOn InputValueDefinition.name values = values :=
  Text.sortOn_eq_self InputValueDefinition.blanked (fun _ => rfl) same

/-- Fields that look as they do in order are in order, and so are their arguments. -/
theorem arrangedFields_eq_self {fields : List FieldDefinition}
    (same : fields.map FieldDefinition.blanked =
      (arrangedFields fields).map FieldDefinition.blanked) : arrangedFields fields = fields := by
  apply Text.mergeSort_map_eq_self Text.linearKeys_nameLe FieldDefinition.blanked
    FieldDefinition.arranged (fun _ => rfl) (fun _ => rfl) _ same
  intro field _ look
  obtain ⟨description, name, arguments, type, directives⟩ := field
  simp only [FieldDefinition.blanked, FieldDefinition.arranged, FieldDefinition.mk.injEq,
    true_and, and_true] at look ⊢
  exact sortOn_inputValues_eq_self look

/-- A type-system definition that looks as it does with its parts in order has them in order. -/
theorem TypeSystemDefinition.arranged_eq_self {definition : TypeSystemDefinition}
    (same : definition.blanked = definition.arranged.blanked) :
    definition.arranged = definition := by
  cases definition with
  | schema description directives roots =>
    simp only [arranged, blanked, schema.injEq, true_and] at same ⊢
    exact same.symm
  | scalar description name directives => rfl
  | object description name interfaces directives fields =>
    simp only [arranged, blanked, object.injEq, true_and] at same ⊢
    exact arrangedFields_eq_self same
  | interface description name interfaces directives fields =>
    simp only [arranged, blanked, interface.injEq, true_and] at same ⊢
    exact arrangedFields_eq_self same
  | union description name directives members =>
    simp only [arranged, blanked, union.injEq, true_and] at same ⊢
    exact same.symm
  | enum description name directives values =>
    simp only [arranged, blanked, enum.injEq, true_and] at same ⊢
    exact Text.sortOn_eq_self EnumValueDefinition.blanked (fun _ => rfl) same
  | inputObject description name directives fields =>
    simp only [arranged, blanked, inputObject.injEq, true_and] at same ⊢
    exact sortOn_inputValues_eq_self same

end Schemas

end GraphQLCanon.Grammar
