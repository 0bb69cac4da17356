/-!
# The order of names

Names are compared code point by code point, and items are put in the order of
their names. The sort is stable: items of one name stay in the order in which
they were written.
-/

namespace GraphQLCanon.Text

/-- Items in the order of their names; items of equal name keep their order. -/
def sortOn {α : Type} (name : α → String) (items : List α) : List α :=
  items.mergeSort fun left right => decide (name left ≤ name right)

/-- Sorting loses, repeats and invents nothing. -/
theorem sortOn_perm {α : Type} (name : α → String) (items : List α) :
    (sortOn name items).Perm items :=
  List.mergeSort_perm items _

end GraphQLCanon.Text
