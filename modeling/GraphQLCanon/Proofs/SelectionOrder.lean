import GraphQLCanon.Executable.Canonical
import GraphQLCanon.Proofs.Itemwise
import GraphQLCanon.Proofs.StableOrder

/-!
# The order of selections and arguments

What it means that a query document is another one rearranged: every selection list
at every depth and every argument list is in its stable order, and nothing else
differs. The canonical form of a document is the one document that is so, and is its
own canonical form.
-/

namespace GraphQLCanon.Executable

open GraphQLCanon.Text

/-- Keys of selections are linearly ordered: by tier and inside a tier by name. -/
theorem linearKeys_selectionKey : LinearKeys SelectionKey.le where
  trans {first second third} below above := by
    simp only [SelectionKey.le, Bool.or_eq_true, Bool.and_eq_true, decide_eq_true_eq,
      beq_iff_eq] at below above ⊢
    rcases below with below | ⟨sameTier, below⟩
    · rcases above with above | ⟨sameTier, -⟩
      · exact .inl (Nat.lt_trans below above)
      · exact .inl (sameTier ▸ below)
    · rcases above with above | ⟨nextTier, above⟩
      · exact .inl (sameTier ▸ above)
      · exact .inr ⟨sameTier.trans nextTier, String.le_trans below above⟩
  total left right := by
    simp only [SelectionKey.le, Bool.or_eq_true, Bool.and_eq_true, decide_eq_true_eq,
      beq_iff_eq]
    rcases Nat.lt_trichotomy left.tier right.tier with below | same | above
    · exact .inl (.inl below)
    · rcases String.le_total left.name right.name with below | above
      · exact .inl (.inr ⟨same, below⟩)
      · exact .inr (.inr ⟨same.symm, above⟩)
    · exact .inr (.inl above)
  antisymm {left right} below above := by
    simp only [SelectionKey.le, Bool.or_eq_true, Bool.and_eq_true, decide_eq_true_eq,
      beq_iff_eq] at below above
    have tiers : left.tier = right.tier := by omega
    have names : left.name = right.name := by
      apply String.le_antisymm
      · rcases below with below | ⟨-, below⟩
        · omega
        · exact below
      · rcases above with above | ⟨-, above⟩
        · omega
        · exact above
    cases left
    cases right
    simp_all

/-- A property of selections holds of all when it holds of each whose selections below
have it. -/
theorem Selection.induct {motive : Selection → Prop}
    (field : ∀ head selections, (∀ selection ∈ selections, motive selection) →
      motive (.field head selections))
    (spread : ∀ name directives, motive (.spread name directives))
    (inline : ∀ typeCondition directives selections,
      (∀ selection ∈ selections, motive selection) →
        motive (.inline typeCondition directives selections)) :
    ∀ selection, motive selection := by
  intro selection
  refine @Selection.rec motive (fun selections => ∀ selection ∈ selections, motive selection)
    field spread inline ?_ ?_ selection
  · simp
  · intro first others firstHolds othersHold
    simpa using ⟨firstHolds, othersHold⟩

/-- A field with its arguments in their stable order. -/
structure Field.Rearranged (source sorted : Field) : Prop where
  name : sorted.name = source.name
  aliasName : sorted.aliasName = source.aliasName
  directives : sorted.directives = source.directives
  arguments : StablySorted nameLe Argument.name source.arguments sorted.arguments

/-- A selection with everything below it in stable order: first inside each selection
below it, then among them. -/
inductive Selection.Rearranged : Selection → Selection → Prop
  | field {head other : Field} {selections inner sorted : List Selection}
    (arguments : head.Rearranged other) (each : List.Forall₂ Rearranged selections inner)
    (stable : StablySorted SelectionKey.le Selection.key inner sorted) :
    Rearranged (.field head selections) (.field other sorted)
  | spread (name : String) (directives : List String) :
    Rearranged (.spread name directives) (.spread name directives)
  | inline (typeCondition : Option String) (directives : List String)
    {selections inner sorted : List Selection} (each : List.Forall₂ Rearranged selections inner)
    (stable : StablySorted SelectionKey.le Selection.key inner sorted) :
    Rearranged (.inline typeCondition directives selections)
      (.inline typeCondition directives sorted)

/-- A selection list in stable order, with everything below it in stable order. -/
def SetRearranged (source sorted : List Selection) : Prop :=
  ∃ inner, List.Forall₂ Selection.Rearranged source inner ∧
    StablySorted SelectionKey.le Selection.key inner sorted

/-- A field has exactly one stable order of its arguments. -/
theorem Field.rearranged_iff (source sorted : Field) :
    source.Rearranged sorted ↔ sorted = source.canonical := by
  obtain ⟨name, aliasName, arguments, directives⟩ := sorted
  constructor
  · rintro ⟨rfl, rfl, rfl, stable⟩
    rw [Field.canonical, ← (stablySorted_nameLe_iff _ _ _).1 stable]
  · intro same
    cases same
    exact ⟨rfl, rfl, rfl, stablySorted_sortOn _ _⟩

/-- Lists are put in their stable order when their selections are rearranged. -/
theorem setRearranged_of_each {selections : List Selection}
    (each : ∀ selection ∈ selections, ∀ other, selection.Rearranged other ↔
      other = selection.canonical) (sorted : List Selection) :
    SetRearranged selections sorted ↔ sorted = canonicalSelections selections := by
  have changed := forall₂_iff_eq_map each
  have computed : StablySorted SelectionKey.le Selection.key (canonicalEach selections)
      (canonicalSelections selections) :=
    stablySorted_mergeSort linearKeys_selectionKey (canonicalEach selections)
  rw [canonicalEach_eq_map] at computed
  constructor
  · rintro ⟨inner, pairs, stable⟩
    rw [(changed inner).1 pairs] at stable
    exact stable.unique linearKeys_selectionKey computed
  · rintro rfl
    exact ⟨_, (changed _).2 rfl, computed⟩

/-- The canonical form of a selection is the one selection that is it rearranged. -/
theorem Selection.rearranged_iff (source sorted : Selection) :
    source.Rearranged sorted ↔ sorted = source.canonical := by
  induction source using Selection.induct generalizing sorted with
  | field head selections inductionHypothesis =>
    have below := setRearranged_of_each inductionHypothesis
    constructor
    · intro rearranged
      cases rearranged with
      | field arguments each stable =>
        rw [Selection.canonical, (Field.rearranged_iff _ _).1 arguments,
          (below _).1 ⟨_, each, stable⟩]
        rfl
    · rintro rfl
      obtain ⟨inner, each, stable⟩ := (below _).2 rfl
      exact .field ((Field.rearranged_iff _ _).2 rfl) each stable
  | spread name directives =>
    constructor
    · rintro ⟨⟩
      rfl
    · rintro rfl
      exact .spread name directives
  | inline typeCondition directives selections inductionHypothesis =>
    have below := setRearranged_of_each inductionHypothesis
    constructor
    · intro rearranged
      cases rearranged with
      | inline _ _ each stable =>
        rw [Selection.canonical, (below _).1 ⟨_, each, stable⟩]
        rfl
    · rintro rfl
      obtain ⟨inner, each, stable⟩ := (below _).2 rfl
      exact .inline typeCondition directives each stable

/-- The canonical form of a selection list is the one list that is it rearranged. -/
theorem setRearranged_iff (source sorted : List Selection) :
    SetRearranged source sorted ↔ sorted = canonicalSelections source :=
  setRearranged_of_each (fun selection _ => selection.rearranged_iff) sorted

/-- A selection list holds something exactly when its canonical form does. -/
theorem isEmpty_canonicalSelections (selections : List Selection) :
    (canonicalSelections selections).isEmpty = selections.isEmpty := by
  have counted : (canonicalSelections selections).length = selections.length := by
    simp [canonicalSelections, sortSelections, canonicalEach_eq_map, List.length_mergeSort]
  rw [Bool.eq_iff_iff, List.isEmpty_iff_length_eq_zero, List.isEmpty_iff_length_eq_zero, counted]

/-- A selection keeps its key in canonical form. -/
theorem Selection.key_canonical (selection : Selection) :
    selection.canonical.key = selection.key := by
  cases selection with
  | field head selections =>
    have kept := isEmpty_canonicalSelections selections
    unfold canonicalSelections at kept
    simp only [Selection.canonical, Selection.key, kept]
    rfl
  | spread name directives => rfl
  | inline typeCondition directives selections => cases typeCondition <;> rfl

/-- A selection list in canonical form stays as it is when its selections do. -/
theorem canonicalSelections_of_each {selections : List Selection}
    (each : ∀ selection ∈ selections, selection.canonical.canonical = selection.canonical) :
    canonicalSelections (canonicalSelections selections) = canonicalSelections selections := by
  have fixed : canonicalEach (canonicalSelections selections) =
      canonicalSelections selections := by
    rw [canonicalEach_eq_map]
    refine (List.map_congr_left ?_).trans (List.map_id _)
    intro selection inside
    simp only [canonicalSelections, sortSelections, canonicalEach_eq_map, List.mem_mergeSort,
      List.mem_map] at inside
    obtain ⟨source, member, rfl⟩ := inside
    exact each source member
  rw [canonicalSelections, fixed]
  exact mergeSort_mergeSort linearKeys_selectionKey Selection.key _

/-- A selection in canonical form stays as it is. -/
theorem Selection.canonical_canonical (selection : Selection) :
    selection.canonical.canonical = selection.canonical := by
  induction selection using Selection.induct with
  | field head selections inductionHypothesis =>
    have below := canonicalSelections_of_each inductionHypothesis
    unfold canonicalSelections at below
    have arguments : head.canonical.canonical = head.canonical := by
      simp only [Field.canonical, sortOn_sortOn]
    simp only [Selection.canonical, arguments, below]
  | spread name directives => rfl
  | inline typeCondition directives selections inductionHypothesis =>
    have below := canonicalSelections_of_each inductionHypothesis
    unfold canonicalSelections at below
    simp only [Selection.canonical, below]

/-- A document in canonical form stays as it is. -/
theorem Document.canonical_canonical (document : Document) :
    document.canonical.canonical = document.canonical := by
  have fixed (definition : Definition) :
      definition.canonical.canonical = definition.canonical := by
    cases definition <;>
      simp only [Definition.canonical,
        canonicalSelections_of_each fun selection _ => selection.canonical_canonical]
  simp [Document.canonical, Function.comp_def, fixed]

/-- A definition with all its selections and arguments in stable order. Its kind, name,
variables and type condition are as they were. -/
inductive Definition.Rearranged : Definition → Definition → Prop
  | operation {source : Operation} {sorted : List Selection}
    (below : SetRearranged source.selections sorted) :
    Rearranged (.operation source) (.operation { source with selections := sorted })
  | fragment {source : Fragment} {sorted : List Selection}
    (below : SetRearranged source.selections sorted) :
    Rearranged (.fragment source) (.fragment { source with selections := sorted })

/-- A document with every definition rearranged at its place. -/
def Document.Rearranged (source sorted : Document) : Prop :=
  List.Forall₂ Definition.Rearranged source.definitions sorted.definitions

/-- The canonical form of a definition is the one definition that is it rearranged. -/
theorem Definition.rearranged_iff (source sorted : Definition) :
    source.Rearranged sorted ↔ sorted = source.canonical := by
  cases source with
  | operation source =>
    have below := setRearranged_iff source.selections
    constructor
    · intro rearranged
      cases rearranged with
      | operation set => rw [Definition.canonical, (below _).1 set]
    · rintro rfl
      exact .operation ((below _).2 rfl)
  | fragment source =>
    have below := setRearranged_iff source.selections
    constructor
    · intro rearranged
      cases rearranged with
      | fragment set => rw [Definition.canonical, (below _).1 set]
    · rintro rfl
      exact .fragment ((below _).2 rfl)

/-- The canonical form of a document is the one document that is it rearranged. -/
theorem Document.rearranged_iff (source sorted : Document) :
    source.Rearranged sorted ↔ sorted = source.canonical := by
  obtain ⟨definitions⟩ := source
  obtain ⟨others⟩ := sorted
  simp only [Document.Rearranged, Document.canonical, Document.mk.injEq]
  exact forall₂_iff_eq_map (fun definition _ => definition.rearranged_iff) others

end GraphQLCanon.Executable
