import GraphQLCanon.Text.Order

/-!
# Stable order

What it means that a list is another one in the order of its keys, said without
a sorting algorithm: the items are the same, no item stands behind one with a
greater key, and the items of one key stand as they stood before. Under a linear
order of keys there is exactly one such list, and the sorts of the library
compute it. So a list that is in order already stays as it is.
-/

namespace GraphQLCanon.Text

variable {α κ : Type}

/-- A decision on keys that is a linear order. -/
structure LinearKeys (le : κ → κ → Bool) : Prop where
  trans : ∀ {first second third}, le first second = true → le second third = true →
    le first third = true
  total : ∀ left right, le left right = true ∨ le right left = true
  antisymm : ∀ {left right}, le left right = true → le right left = true → left = right

variable {le : κ → κ → Bool}

/-- Every key is at most itself. -/
theorem LinearKeys.refl (linear : LinearKeys le) (shared : κ) :
    le shared shared = true := by
  rcases linear.total shared shared with below | below <;> exact below

/-- The order of items by a key is transitive. -/
theorem LinearKeys.trans_on (linear : LinearKeys le) (key : α → κ) (first second third : α)
    (below : le (key first) (key second) = true) (above : le (key second) (key third) = true) :
    le (key first) (key third) = true :=
  linear.trans below above

/-- The order of items by a key is total. -/
theorem LinearKeys.total_on (linear : LinearKeys le) (key : α → κ) (left right : α) :
    (le (key left) (key right) || le (key right) (key left)) = true := by
  simpa only [Bool.or_eq_true] using linear.total (key left) (key right)

/-- Merge sort by a key leaves what it computed as it is. -/
theorem mergeSort_mergeSort (linear : LinearKeys le) (key : α → κ) (source : List α) :
    (source.mergeSort fun left right => le (key left) (key right)).mergeSort
      (fun left right => le (key left) (key right)) =
      source.mergeSort fun left right => le (key left) (key right) :=
  List.mergeSort_of_pairwise
    (List.pairwise_mergeSort (linear.trans_on key) (linear.total_on key) source)

/-- The decision on names that orders them code point by code point. -/
def nameLe (left right : String) : Bool := decide (left ≤ right)

/-- Names are linearly ordered. -/
theorem linearKeys_nameLe : LinearKeys nameLe where
  trans below above := by
    simp only [nameLe, decide_eq_true_eq] at below above ⊢
    exact String.le_trans below above
  total left right := by
    simp only [nameLe, decide_eq_true_eq]
    exact String.le_total left right
  antisymm below above := by
    simp only [nameLe, decide_eq_true_eq] at below above
    exact String.le_antisymm below above

/-- A list holds the items of another one in the order of their keys, and items
of one key in the order in which they stand there. -/
structure StablySorted [DecidableEq κ] (le : κ → κ → Bool) (key : α → κ)
    (source sorted : List α) : Prop where
  permuted : sorted.Perm source
  ordered : sorted.Pairwise fun left right => le (key left) (key right) = true
  stable : ∀ shared, sorted.filter (key · = shared) = source.filter (key · = shared)

variable [DecidableEq κ] {key : α → κ}

/-- The first items of two ordered lists agree when the items of every key agree.
Each first item occurs in the other list, so neither key is below the other. -/
theorem head_eq_of_ordered (linear : LinearKeys le) {first second : α} {others rest : List α}
    (left : (first :: others).Pairwise fun one two => le (key one) (key two) = true)
    (right : (second :: rest).Pairwise fun one two => le (key one) (key two) = true)
    (same : ∀ shared, (first :: others).filter (key · = shared) =
      (second :: rest).filter (key · = shared)) : first = second := by
  have least : ∀ {one two : α} {tail items : List α},
      (one :: tail).Pairwise (fun left right => le (key left) (key right) = true) →
      (one :: tail).filter (key · = key two) = (two :: items).filter (key · = key two) →
      le (key one) (key two) = true := by
    intro one two tail items ordered agree
    have inside : two ∈ (one :: tail).filter (key · = key two) := by
      rw [agree]
      simp
    rcases List.mem_cons.1 (List.mem_filter.1 inside).1 with rfl | later
    · exact linear.refl (key two)
    · exact (List.pairwise_cons.1 ordered).1 two later
  have keys : key first = key second :=
    linear.antisymm (least left (same (key second))) (least right (same (key first)).symm)
  have heads := same (key second)
  simp only [List.filter_cons, keys, decide_true, if_true] at heads
  exact (List.cons.inj heads).1

/-- Two ordered lists in which the items of every key agree are the same. -/
theorem eq_of_ordered (linear : LinearKeys le) {left right : List α}
    (leftOrdered : left.Pairwise fun one two => le (key one) (key two) = true)
    (rightOrdered : right.Pairwise fun one two => le (key one) (key two) = true)
    (same : ∀ shared, left.filter (key · = shared) = right.filter (key · = shared)) :
    left = right := by
  induction left generalizing right with
  | nil =>
    cases right with
    | nil => rfl
    | cons second rest =>
      have absent := same (key second)
      simp at absent
  | cons first others inductionHypothesis =>
    cases right with
    | nil =>
      have absent := same (key first)
      simp at absent
    | cons second rest =>
      obtain rfl := head_eq_of_ordered linear leftOrdered rightOrdered same
      have tails : others = rest := by
        apply inductionHypothesis leftOrdered.tail rightOrdered.tail
        intro shared
        have both := same shared
        by_cases here : key first = shared
        · simpa [List.filter_cons, here] using both
        · simpa [List.filter_cons, here] using both
      rw [tails]

/-- There is at most one stable order of a list. -/
theorem StablySorted.unique (linear : LinearKeys le) {source left right : List α}
    (one : StablySorted le key source left) (two : StablySorted le key source right) :
    left = right :=
  eq_of_ordered linear one.ordered two.ordered fun shared =>
    (one.stable shared).trans (two.stable shared).symm

/-- Merge sort by a key computes the stable order. The items of one key are an
ordered part of the source, so they are a part of the result, and as long. -/
theorem stablySorted_mergeSort (linear : LinearKeys le) (source : List α) :
    StablySorted le key source
      (source.mergeSort fun left right => le (key left) (key right)) where
  permuted := List.mergeSort_perm source _
  ordered := List.pairwise_mergeSort (linear.trans_on key) (linear.total_on key) source
  stable shared := by
    have keyOf : ∀ item ∈ source.filter (key · = shared), key item = shared := by
      intro item inside
      simpa using (List.mem_filter.1 inside).2
    have alike : (source.filter (key · = shared)).Pairwise
        fun left right => le (key left) (key right) = true := by
      apply List.pairwise_iff_forall_sublist.2
      intro left right part
      rw [keyOf left (part.subset (by simp)), keyOf right (part.subset (by simp))]
      exact linear.refl shared
    have part : (source.filter (key · = shared)).Sublist source := List.filter_sublist
    have kept := List.sublist_mergeSort (linear.trans_on key) (linear.total_on key) alike part
    have filtered := kept.filter (key · = shared)
    rw [List.filter_filter] at filtered
    simp only [Bool.and_self] at filtered
    refine (filtered.eq_of_length ?_).symm
    exact ((List.mergeSort_perm source _).filter _).length_eq.symm

/-- Sorting by name computes the stable order of names. -/
theorem stablySorted_sortOn (name : α → String) (items : List α) :
    StablySorted nameLe name items (sortOn name items) :=
  stablySorted_mergeSort linearKeys_nameLe items

/-- A list has exactly one stable order by name. -/
theorem stablySorted_nameLe_iff (name : α → String) (source sorted : List α) :
    StablySorted nameLe name source sorted ↔ sorted = sortOn name source := by
  have computed := stablySorted_sortOn name source
  constructor
  · exact fun stable => stable.unique linearKeys_nameLe computed
  · rintro rfl
    exact computed

/-- Sorting twice is sorting once. -/
theorem sortOn_sortOn (name : α → String) (items : List α) :
    sortOn name (sortOn name items) = sortOn name items :=
  mergeSort_mergeSort linearKeys_nameLe name items

/-- Sorting by name and a change of items that keeps their names commute. -/
theorem map_sortOn {β : Type} (name : α → String) (other : β → String) (change : α → β)
    (kept : ∀ item, other (change item) = name item) (items : List α) :
    (sortOn name items).map change = sortOn other (items.map change) := by
  apply List.map_mergeSort
  intro left _ right _
  simp only [kept]

end GraphQLCanon.Text
