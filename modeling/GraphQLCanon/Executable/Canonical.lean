import GraphQLCanon.Executable.Basic

/-!
# The canonical order of executable documents

Selections are ordered by tier and, inside a tier, by name: fields without
selections, fields with selections, spreads, inline fragments with a type
condition, inline fragments without one. Arguments are ordered by name. What
compares equal keeps its order. Definitions and variables stay where they are.
-/

namespace GraphQLCanon.Executable

/-- What selections are ordered by. -/
structure SelectionKey where
  tier : Nat
  name : String
  deriving DecidableEq, Repr

/-- The order of keys: by tier, then by name. -/
def SelectionKey.le (left right : SelectionKey) : Bool :=
  left.tier < right.tier || (left.tier == right.tier && decide (left.name ≤ right.name))

/-- The key of a selection. -/
def Selection.key : Selection → SelectionKey
  | field head selections => ⟨if selections.isEmpty then 0 else 1, head.name⟩
  | spread name _ => ⟨2, name⟩
  | inline (some typeCondition) _ _ => ⟨3, typeCondition⟩
  | inline none _ _ => ⟨4, ""⟩

/-- Selections in the order of their keys. -/
def sortSelections (selections : List Selection) : List Selection :=
  selections.mergeSort fun left right => left.key.le right.key

/-- The positions that selections have before they are put in the order of their
keys, in that order. -/
def selectionOrder (selections : List Selection) : List Nat :=
  (selections.zipIdx.mergeSort fun left right => left.1.key.le right.1.key).map Prod.snd

/-- A field with its arguments in the order of their names. -/
def Field.canonical (field : Field) : Field :=
  { field with arguments := Text.sortOn Argument.name field.arguments }

mutual

/-- A selection with everything below it in canonical order. -/
def Selection.canonical : Selection → Selection
  | .field head selections =>
    .field head.canonical (sortSelections (canonicalEach selections))
  | .spread name directives => .spread name directives
  | .inline typeCondition directives selections =>
    .inline typeCondition directives (sortSelections (canonicalEach selections))

/-- Selections in their own order, with everything below them in canonical
order. -/
def canonicalEach : List Selection → List Selection
  | [] => []
  | selection :: selections => selection.canonical :: canonicalEach selections

end

/-- A selection set in canonical order at every depth. -/
def canonicalSelections (selections : List Selection) : List Selection :=
  sortSelections (canonicalEach selections)

/-- A definition with its selections in canonical order. -/
def Definition.canonical : Definition → Definition
  | operation definition =>
    .operation { definition with selections := canonicalSelections definition.selections }
  | fragment definition =>
    .fragment { definition with selections := canonicalSelections definition.selections }

/-- A document with all selections and arguments in canonical order. -/
def Document.canonical (document : Document) : Document :=
  ⟨document.definitions.map Definition.canonical⟩

/-- Selections are put in order one by one below their own level. -/
theorem canonicalEach_eq_map (selections : List Selection) :
    canonicalEach selections = selections.map Selection.canonical := by
  induction selections with
  | nil => rfl
  | cons selection selections inductionHypothesis => simp [canonicalEach, inductionHypothesis]

end GraphQLCanon.Executable
