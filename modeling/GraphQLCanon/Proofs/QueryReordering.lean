import Mathlib.Data.List.Permutation
import GraphQLCanon.Formatting
import GraphQLCanon.Proofs.QueryPieces
import GraphQLCanon.Proofs.StablePermutation

/-!
# Reordered queries

What it means that a query document is another one with its selections and arguments in
other orders, at any depths, where selections of one key and arguments of one name keep
their order. Documents are so related exactly when they have the same canonical form, and
so the one is printed as the other, or refused for the same construct.
-/

namespace GraphQLCanon.Executable

open GraphQLCanon.Text

/-- A field with its arguments in another order, where arguments of one name keep
theirs. -/
structure Field.Reordered (source other : Field) : Prop where
  name : other.name = source.name
  aliasName : other.aliasName = source.aliasName
  directives : other.directives = source.directives
  arguments : StablyPermuted Argument.name source.arguments other.arguments

/-- A selection with the lists in it and below it in other orders. A list is changed
first inside each of its selections, and then the selections change places, where those
of one key keep their order. -/
inductive Selection.Reordered : Selection → Selection → Prop
  | field {head other : Field} {selections inner reordered : List Selection}
    (arguments : head.Reordered other) (each : List.Forall₂ Reordered selections inner)
    (order : StablyPermuted Selection.key inner reordered) :
    Reordered (.field head selections) (.field other reordered)
  | spread (name : String) (directives : List String) :
    Reordered (.spread name directives) (.spread name directives)
  | inline (typeCondition : Option String) (directives : List String)
    {selections inner reordered : List Selection} (each : List.Forall₂ Reordered selections inner)
    (order : StablyPermuted Selection.key inner reordered) :
    Reordered (.inline typeCondition directives selections)
      (.inline typeCondition directives reordered)

/-- A selection list in another order, with the lists below it in other orders. -/
abbrev SetReordered : List Selection → List Selection → Prop :=
  ReorderedBy Selection.Reordered Selection.key

/-- A definition with the lists in it in other orders. Its kind, name, variables and type
condition are as they were. -/
inductive Definition.Reordered : Definition → Definition → Prop
  | operation {source : Operation} {reordered : List Selection}
    (below : SetReordered source.selections reordered) :
    Reordered (.operation source) (.operation { source with selections := reordered })
  | fragment {source : Fragment} {reordered : List Selection}
    (below : SetReordered source.selections reordered) :
    Reordered (.fragment source) (.fragment { source with selections := reordered })

/-- A document with every definition at its place, and the lists in it in other orders. -/
def Document.Reordered (source other : Document) : Prop :=
  List.Forall₂ Definition.Reordered source.definitions other.definitions

/-- Fields are reordered into one another exactly when they have one canonical form. -/
theorem Field.reordered_iff (source other : Field) :
    source.Reordered other ↔ source.canonical = other.canonical := by
  obtain ⟨name, aliasName, arguments, directives⟩ := source
  obtain ⟨otherName, otherAlias, others, otherDirectives⟩ := other
  have sorted := @stablyPermuted_iff_sortOn_eq _ arguments others Argument.name
  simp only [Field.canonical, Field.mk.injEq]
  constructor
  · rintro ⟨rfl, rfl, rfl, order⟩
    exact ⟨rfl, rfl, sorted.1 order, rfl⟩
  · rintro ⟨rfl, rfl, same, rfl⟩
    exact ⟨rfl, rfl, rfl, sorted.2 same⟩

/-- Selection lists are reordered into one another exactly when they have one canonical
form, if that holds of their selections. -/
theorem setReordered_of_each {selections : List Selection}
    (each : ∀ selection ∈ selections, ∀ other, selection.Reordered other ↔
      selection.canonical = other.canonical) (others : List Selection) :
    SetReordered selections others ↔
      canonicalSelections selections = canonicalSelections others := by
  unfold canonicalSelections
  rw [canonicalEach_eq_map, canonicalEach_eq_map]
  exact reorderedBy_iff linearKeys_selectionKey Selection.key_canonical each others

/-- Selections are reordered into one another exactly when they have one canonical
form. -/
theorem Selection.reordered_iff (source other : Selection) :
    source.Reordered other ↔ source.canonical = other.canonical := by
  induction source using Selection.induct generalizing other with
  | field head selections inductionHypothesis =>
    have below := setReordered_of_each inductionHypothesis
    unfold canonicalSelections at below
    constructor
    · intro reordered
      cases reordered with
      | field arguments each order =>
        rw [Selection.canonical, Selection.canonical, (Field.reordered_iff _ _).1 arguments,
          (below _).1 ⟨_, each, order⟩]
    · intro same
      cases other with
      | field otherHead others =>
        simp only [Selection.canonical, Selection.field.injEq] at same
        obtain ⟨inner, each, order⟩ := (below others).2 same.2
        exact .field ((Field.reordered_iff _ _).2 same.1) each order
      | spread | inline => cases same
  | spread name directives =>
    constructor
    · rintro ⟨⟩
      rfl
    · intro same
      cases other with
      | spread =>
        cases same
        exact .spread name directives
      | field | inline => cases same
  | inline typeCondition directives selections inductionHypothesis =>
    have below := setReordered_of_each inductionHypothesis
    unfold canonicalSelections at below
    constructor
    · intro reordered
      cases reordered with
      | inline _ _ each order =>
        rw [Selection.canonical, Selection.canonical, (below _).1 ⟨_, each, order⟩]
    · intro same
      cases other with
      | inline otherCondition otherDirectives others =>
        simp only [Selection.canonical, Selection.inline.injEq] at same
        obtain ⟨rfl, rfl, sets⟩ := same
        obtain ⟨inner, each, order⟩ := (below others).2 sets
        exact .inline typeCondition directives each order
      | field | spread => cases same

/-- Definitions are reordered into one another exactly when they have one canonical
form. -/
theorem Definition.reordered_iff (source other : Definition) :
    source.Reordered other ↔ source.canonical = other.canonical := by
  have sets := fun selections =>
    @setReordered_of_each selections fun selection _ => selection.reordered_iff
  constructor
  · intro reordered
    cases reordered with
    | operation below => simp only [Definition.canonical, (sets _ _).1 below]
    | fragment below => simp only [Definition.canonical, (sets _ _).1 below]
  · intro same
    cases source with
    | operation source =>
      cases other with
      | operation other =>
        obtain ⟨kind, name, variableDefinitions, directives, selections⟩ := other
        simp only [Definition.canonical, Definition.operation.injEq, Operation.mk.injEq] at same
        obtain ⟨rfl, rfl, rfl, rfl, selections⟩ := same
        exact .operation ((sets _ _).2 selections)
      | fragment other => cases same
    | fragment source =>
      cases other with
      | operation other => cases same
      | fragment other =>
        obtain ⟨name, typeCondition, directives, selections⟩ := other
        simp only [Definition.canonical, Definition.fragment.injEq, Fragment.mk.injEq] at same
        obtain ⟨rfl, rfl, rfl, selections⟩ := same
        exact .fragment ((sets _ _).2 selections)

/-- Documents are reordered into one another exactly when they have one canonical
form. -/
theorem Document.reordered_iff (source other : Document) :
    source.Reordered other ↔ source.canonical = other.canonical := by
  rw [Document.canonical, Document.canonical, Document.mk.injEq]
  exact forall₂_iff_map_eq (fun definition _ => definition.reordered_iff) _

end GraphQLCanon.Executable

namespace GraphQLCanon

open GraphQLCanon.Executable

/-- A query document and the same with its selections and arguments in other orders, where
what is ordered alike in one list keeps its order, have one outcome of rendering under
all options: one text, or one construct that is not supported. -/
theorem renderExecutable_of_reordered {source other : Executable.Document}
    (reordered : source.Reordered other) (options : Options) :
    (∃ text, renderExecutable source options = .ok text ∧
      renderExecutable other options = .ok text) ∨
    ∃ construct, renderExecutable source options = .error (.unsupported construct) ∧
      renderExecutable other options = .error (.unsupported construct) := by
  have same : renderExecutable other options = renderExecutable source options := by
    rw [renderExecutable, renderExecutable, Document.render, Document.render,
      (source.reordered_iff other).1 reordered]
  have rendered := source.render_eq options.indentWidth options.maxWidth
  rw [same, renderExecutable, rendered]
  cases source.canonical.offence? with
  | none => exact .inl ⟨_, rfl, rfl⟩
  | some construct => exact .inr ⟨construct, rfl, rfl⟩

/-- A field and an inline fragment change places, and so do the arguments of the one and the
selections of the other. Both documents are printed as one text. -/
theorem renderExecutable_of_reordered_nested :
    let source : Executable.Document :=
      ⟨[.fragment ⟨"F", "T", [], [.field ⟨"b", none, [⟨"y", "1"⟩, ⟨"x", "2"⟩], []⟩ [],
        .inline none [] [.spread "S" [], .field ⟨"a", none, [], []⟩ []]]⟩]⟩
    let other : Executable.Document :=
      ⟨[.fragment ⟨"F", "T", [],
        [.inline none [] [.field ⟨"a", none, [], []⟩ [], .spread "S" []],
        .field ⟨"b", none, [⟨"x", "2"⟩, ⟨"y", "1"⟩], []⟩ []]⟩]⟩
    let text := "fragment F on T \x7b\n  b(x: 2, y: 1)\n  ... \x7b\n    a\n    ...S\n  \x7d\n\x7d"
    source.Reordered other ∧ renderExecutable source Options.standard = .ok text ∧
      renderExecutable other Options.standard = .ok text := by
  intro source other text
  have arguments : Field.Reordered ⟨"b", none, [⟨"y", "1"⟩, ⟨"x", "2"⟩], []⟩
      ⟨"b", none, [⟨"x", "2"⟩, ⟨"y", "1"⟩], []⟩ :=
    ⟨rfl, rfl, rfl, .swap (by decide) []⟩
  have unchanged (selection : Selection) : selection.Reordered selection :=
    (selection.reordered_iff selection).2 rfl
  have below : SetReordered [.spread "S" [], .field ⟨"a", none, [], []⟩ []]
      [.field ⟨"a", none, [], []⟩ [], .spread "S" []] :=
    ⟨_, List.forall₂_same.2 fun selection _ => unchanged selection, .swap (by decide) []⟩
  obtain ⟨inner, each, order⟩ := below
  have reordered : source.Reordered other :=
    .cons (.fragment ⟨_, .cons (.field arguments .nil (.refl _ _))
      (.cons (.inline none [] each order) .nil), .swap (by decide) []⟩) .nil
  have sorted : source.canonical =
      ⟨[.fragment ⟨"F", "T", [], [.field ⟨"b", none, [⟨"x", "2"⟩, ⟨"y", "1"⟩], []⟩ [],
        .inline none [] [.field ⟨"a", none, [], []⟩ [], .spread "S" []]]⟩]⟩ := by
    cbv
  have printed : renderExecutable source Options.standard = .ok text := by
    rw [renderExecutable, Document.render_eq, sorted]
    decide +kernel
  rcases renderExecutable_of_reordered reordered Options.standard with
    ⟨result, ofSource, ofOther⟩ | ⟨construct, ofSource, -⟩
  · obtain rfl := Except.ok.inj (printed.symm.trans ofSource)
    exact ⟨reordered, printed, ofOther⟩
  · rw [printed] at ofSource
    cases ofSource

end GraphQLCanon
