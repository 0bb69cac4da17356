import GraphQLCanon.Proofs.Itemwise
import GraphQLCanon.Proofs.StableOrder

/-!
# Stable permutations

What it means that a list is another one put in some other order in which the items of
one key still follow one another as they did. Two lists are so related exactly when they
have the same stable order, so a stable sort computes one list for all of them. The same
holds when the items are changed one by one before they change places, as long as each
change keeps the key and can be undone by putting the item in order.
-/

namespace GraphQLCanon.Text

variable {α β κ : Type} [DecidableEq κ]

/-- A list holds the items of another one, and items of one key in the order in which
they stand there. -/
structure StablyPermuted (key : α → κ) (source other : List α) : Prop where
  permuted : other.Perm source
  stable : ∀ shared, other.filter (key · = shared) = source.filter (key · = shared)

namespace StablyPermuted

variable {key : α → κ} {source middle other : List α}

/-- The order of a list may stay as it is. -/
theorem refl (key : α → κ) (source : List α) : StablyPermuted key source source :=
  ⟨.refl source, fun _ => rfl⟩

/-- What changed places may change them back. -/
theorem symm (reordered : StablyPermuted key source other) : StablyPermuted key other source :=
  ⟨reordered.permuted.symm, fun shared => (reordered.stable shared).symm⟩

/-- Items may change places twice. -/
theorem trans (first : StablyPermuted key source middle)
    (second : StablyPermuted key middle other) : StablyPermuted key source other :=
  ⟨second.permuted.trans first.permuted,
    fun shared => (second.stable shared).trans (first.stable shared)⟩

/-- Neighbours of different keys may change places. -/
theorem swap {left right : α} (apart : key left ≠ key right) (others : List α) :
    StablyPermuted key (left :: right :: others) (right :: left :: others) where
  permuted := .swap left right others
  stable shared := by
    by_cases here : key left = shared
    · have there : key right ≠ shared := fun same => apart (here.trans same.symm)
      simp [here, there]
    · simp [List.filter_cons, here]

/-- Where the items are their own keys every permutation is stable, since the items of
one key are all the same. -/
theorem of_perm {source other : List κ} (permuted : other.Perm source) :
    StablyPermuted id source other where
  permuted := permuted
  stable shared := by
    have alike (items : List κ) :
        items.filter (id · = shared) = List.replicate (items.count shared) shared :=
      List.filter_eq shared
    rw [alike, alike, permuted.count_eq]

/-- A change of items that keeps their keys leaves a permutation stable. -/
theorem map {name : β → κ} {change : β → α} (kept : ∀ item, key (change item) = name item)
    {source other : List β} (reordered : StablyPermuted name source other) :
    StablyPermuted key (source.map change) (other.map change) where
  permuted := reordered.permuted.map change
  stable shared := by
    simp only [List.filter_map, Function.comp_def, kept, reordered.stable shared]

end StablyPermuted

section Insertion

variable {key : α → κ} {item : α} {others before behind : List α}

/-- An item stands first among those of its key when it stands first of all, or behind
items of other keys only. So it may be taken out at both places. -/
theorem stablyPermuted_cons_iff (apart : ∀ earlier ∈ before, key earlier ≠ key item) :
    StablyPermuted key (item :: others) (before ++ item :: behind) ↔
      StablyPermuted key others (before ++ behind) := by
  have none : before.filter (key · = key item) = [] :=
    List.filter_eq_nil_iff.2 fun earlier inside => by simpa using apart earlier inside
  have same (shared : κ) :
      (before ++ item :: behind).filter (key · = shared) =
          (item :: others).filter (key · = shared) ↔
        (before ++ behind).filter (key · = shared) = others.filter (key · = shared) := by
    by_cases here : key item = shared
    · subst here
      simp [List.filter_append, none]
    · simp [List.filter_append, here]
  constructor
  · intro reordered
    have moved := List.perm_middle.symm.trans reordered.permuted
    exact ⟨moved.cons_inv, fun shared => (same shared).1 (reordered.stable shared)⟩
  · intro reordered
    exact ⟨List.perm_middle.trans (reordered.permuted.cons item),
      fun shared => (same shared).2 (reordered.stable shared)⟩

/-- The first item of a list stands in a stable permutation of it behind items of other
keys only. -/
theorem StablyPermuted.exists_split {other : List α}
    (reordered : StablyPermuted key (item :: others) other) :
    ∃ before behind, other = before ++ item :: behind ∧
      ∀ earlier ∈ before, key earlier ≠ key item := by
  have first := reordered.stable (key item)
  rw [List.filter_cons_of_pos (by simp)] at first
  obtain ⟨before, behind, rfl, apart, -⟩ := List.filter_eq_cons_iff.1 first
  exact ⟨before, behind, rfl, fun earlier inside => by simpa using apart earlier inside⟩

end Insertion

/-- Items that are changed and then put in another order may be put in that order
first. -/
theorem stablyPermuted_map_iff {key : α → κ} {name : β → κ} {change : β → α}
    (kept : ∀ item, key (change item) = name item) {source : List α} {other : List β} :
    StablyPermuted key source (other.map change) ↔
      ∃ inner, inner.map change = source ∧ StablyPermuted name inner other := by
  constructor
  · intro reordered
    induction source generalizing other with
    | nil =>
      have nothing : other = [] := List.map_eq_nil_iff.1 reordered.permuted.eq_nil
      exact ⟨[], rfl, nothing ▸ .refl name []⟩
    | cons first others inductionHypothesis =>
      obtain ⟨left, right, split, apart⟩ := reordered.exists_split
      obtain ⟨before, rest, rfl, rfl, tail⟩ := List.map_eq_append_iff.1 split
      obtain ⟨item, behind, rfl, rfl, rfl⟩ := List.map_eq_cons_iff.1 tail
      rw [split, stablyPermuted_cons_iff apart, ← List.map_append] at reordered
      obtain ⟨inner, rfl, stable⟩ := inductionHypothesis reordered
      have apartBefore : ∀ earlier ∈ before, name earlier ≠ name item := by
        intro earlier inside
        rw [← kept, ← kept]
        exact apart _ (List.mem_map_of_mem inside)
      exact ⟨item :: inner, rfl, (stablyPermuted_cons_iff apartBefore).2 stable⟩
  · rintro ⟨inner, rfl, reordered⟩
    exact reordered.map kept

section Sorting

variable {le : κ → κ → Bool} {key : α → κ} {source other sorted : List α}

/-- The stable order of a list is a stable permutation of it. -/
theorem StablySorted.stablyPermuted (stable : StablySorted le key source sorted) :
    StablyPermuted key source sorted :=
  ⟨stable.permuted, stable.stable⟩

/-- The stable order of a list is that of its stable permutations. -/
theorem StablySorted.of_stablyPermuted (stable : StablySorted le key source sorted)
    (reordered : StablyPermuted key source other) : StablySorted le key other sorted where
  permuted := stable.permuted.trans reordered.permuted.symm
  ordered := stable.ordered
  stable shared := (stable.stable shared).trans (reordered.stable shared).symm

/-- Lists are stable permutations of one another exactly when merge sort makes them the
same. -/
theorem stablyPermuted_iff_mergeSort_eq (linear : LinearKeys le) :
    StablyPermuted key source other ↔
      (source.mergeSort fun left right => le (key left) (key right)) =
        other.mergeSort fun left right => le (key left) (key right) := by
  have one : StablySorted le key source _ := stablySorted_mergeSort linear source
  have two : StablySorted le key other _ := stablySorted_mergeSort linear other
  constructor
  · intro reordered
    exact (one.of_stablyPermuted reordered).unique linear two
  · intro same
    rw [← same] at two
    exact one.stablyPermuted.trans two.stablyPermuted.symm

/-- Lists are stable permutations of one another exactly when sorting by name makes them
the same. -/
theorem stablyPermuted_iff_sortOn_eq {name : α → String} :
    StablyPermuted name source other ↔ sortOn name source = sortOn name other :=
  stablyPermuted_iff_mergeSort_eq linearKeys_nameLe

end Sorting

/-- A list whose items are changed one by one, and then put in another order in which the
items of one key follow one another as they did. -/
def ReorderedBy (changed : α → α → Prop) (key : α → κ) (source other : List α) : Prop :=
  ∃ inner, List.Forall₂ changed source inner ∧ StablyPermuted key inner other

/-- Where an item is changed into those that are the same as it when put in order, a list
is changed and permuted into those that are the same as it when all their items and then
they themselves are put in order. -/
theorem reorderedBy_iff {le : κ → κ → Bool} (linear : LinearKeys le) {key : α → κ}
    {changed : α → α → Prop} {canonical : α → α}
    (kept : ∀ item, key (canonical item) = key item) {source : List α}
    (each : ∀ item ∈ source, ∀ other, changed item other ↔ canonical item = canonical other)
    (other : List α) :
    ReorderedBy changed key source other ↔
      ((source.map canonical).mergeSort fun left right => le (key left) (key right)) =
        (other.map canonical).mergeSort fun left right => le (key left) (key right) := by
  rw [← stablyPermuted_iff_mergeSort_eq linear, stablyPermuted_map_iff kept]
  simp only [ReorderedBy, forall₂_iff_map_eq each, eq_comm]

end GraphQLCanon.Text
