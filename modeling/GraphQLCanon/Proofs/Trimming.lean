import GraphQLCanon.Text.Blank

/-!
# Trimming both ends

A list from which a class of items is removed at both ends: it begins and ends
outside the class, nothing from outside the class is lost, and a list that
begins and ends outside the class is what trimming leaves of it, whatever items
of the class stand around it.
-/

namespace GraphQLCanon.Text

variable {α : Type}

/-- Items that begin and end outside a class, or are none. -/
structure Trimmed (class? : α → Bool) (items : List α) : Prop where
  head : ∀ item, items.head? = some item → class? item = false
  last : ∀ item, items.getLast? = some item → class? item = false

/-- What is left in front of items of a class is nothing when all belong to it. -/
theorem dropWhile_append_of_forall {class? : α → Bool} {left items : List α}
    (inside : ∀ item ∈ left, class? item = true)
    (head : ∀ item, items.head? = some item → class? item = false) :
    (left ++ items).dropWhile class? = items := by
  rw [List.dropWhile_append_of_pos inside]
  cases items with
  | nil => rfl
  | cons first others => simp [head first rfl]

/-- Trimming removes exactly the items of the class around trimmed items. -/
theorem trimEnds_append {class? : α → Bool} (left right : List α) {items : List α}
    (front : ∀ item ∈ left, class? item = true) (back : ∀ item ∈ right, class? item = true)
    (trimmed : Trimmed class? items) : trimEnds class? (left ++ items ++ right) = items := by
  cases items with
  | nil =>
    have all : ∀ item ∈ left ++ right, class? item = true := by
      intro item inside
      rcases List.mem_append.1 inside with inside | inside
      · exact front item inside
      · exact back item inside
    have nothing := @dropWhile_append_of_forall α class? (left ++ right) [] all (by simp)
    simp only [List.append_nil] at nothing ⊢
    simp [trimEnds, nothing]
  | cons first others =>
    have opened : (left ++ (first :: others ++ right)).dropWhile class? =
        first :: others ++ right :=
      dropWhile_append_of_forall front fun item inFront =>
        trimmed.head item (by simpa using inFront)
    have closed : (right.reverse ++ (first :: others).reverse).dropWhile class? =
        (first :: others).reverse :=
      dropWhile_append_of_forall (by simpa using back)
        (fun item inFront => trimmed.last item (by rwa [List.head?_reverse] at inFront))
    rw [trimEnds, List.append_assoc, opened, List.reverse_append, closed, List.reverse_reverse]

/-- Nothing of the class stands in front after it was removed there. -/
theorem head_dropWhile {class? : α → Bool} {items : List α} {item : α}
    (inFront : (items.dropWhile class?).head? = some item) : class? item = false := by
  have head := List.head?_dropWhile_not class? items
  simpa [inFront] using head

/-- What trimming leaves is trimmed. At the front it is what was left after the
first removal, unless the second one removed all. -/
theorem trimmed_trimEnds (class? : α → Bool) (items : List α) :
    Trimmed class? (trimEnds class? items) where
  head item inFront := by
    rw [trimEnds, List.head?_reverse] at inFront
    obtain ⟨removed, split⟩ : (items.dropWhile class?).reverse.dropWhile class? <:+
        (items.dropWhile class?).reverse := List.dropWhile_suffix class?
    have last : (items.dropWhile class?).reverse.getLast? = some item := by
      rw [← split, List.getLast?_append, inFront]
      rfl
    rw [List.getLast?_reverse] at last
    exact head_dropWhile last
  last item atEnd := by
    rw [trimEnds, List.getLast?_reverse] at atEnd
    exact head_dropWhile atEnd

/-- Items from outside the class are not removed. -/
theorem mem_dropWhile {class? : α → Bool} {items : List α} {item : α} (inside : item ∈ items)
    (apart : class? item = false) : item ∈ items.dropWhile class? := by
  induction items with
  | nil => contradiction
  | cons first others inductionHypothesis =>
    by_cases removed : class? first = true
    · rw [List.dropWhile_cons_of_pos removed]
      rcases List.mem_cons.1 inside with rfl | later
      · rw [removed] at apart
        contradiction
      · exact inductionHypothesis later
    · rw [List.dropWhile_cons_of_neg removed]
      exact inside

/-- Trimming keeps every item from outside the class. -/
theorem mem_trimEnds {class? : α → Bool} {items : List α} {item : α} (inside : item ∈ items)
    (apart : class? item = false) : item ∈ trimEnds class? items := by
  have front := mem_dropWhile inside apart
  have back := mem_dropWhile (List.mem_reverse.2 front) apart
  exact List.mem_reverse.2 back

/-- Trimming brings nothing new. -/
theorem mem_of_mem_trimEnds {class? : α → Bool} {items : List α} {item : α}
    (inside : item ∈ trimEnds class? items) : item ∈ items := by
  have back := (List.dropWhile_suffix class?).subset (List.mem_reverse.1 inside)
  exact (List.dropWhile_suffix class?).subset (List.mem_reverse.1 back)

/-- What trimming removes are items of the class at both ends. -/
theorem exists_append_trimEnds (class? : α → Bool) (items : List α) :
    ∃ left right, items = left ++ trimEnds class? items ++ right ∧
      (∀ item ∈ left, class? item = true) ∧ ∀ item ∈ right, class? item = true := by
  have front := @List.takeWhile_append_dropWhile α class? items
  have back := @List.takeWhile_append_dropWhile α class? (items.dropWhile class?).reverse
  refine ⟨items.takeWhile class?, ((items.dropWhile class?).reverse.takeWhile class?).reverse, ?_,
    fun item inside => List.all_eq_true.1 List.all_takeWhile item inside,
    fun item inside => List.all_eq_true.1 List.all_takeWhile item (List.mem_reverse.1 inside)⟩
  rw [trimEnds, List.append_assoc, ← List.reverse_append, back, List.reverse_reverse, front]

/-- Items between two trimmed lists that are not empty do not matter. -/
theorem Trimmed.append {class? : α → Bool} {left right : List α} (front : Trimmed class? left)
    (back : Trimmed class? right) (frontNonempty : left ≠ []) (backNonempty : right ≠ [])
    (middle : List α) : Trimmed class? (left ++ (middle ++ right)) where
  head item inFront := by
    obtain ⟨first, others, rfl⟩ := List.exists_cons_of_ne_nil frontNonempty
    exact front.head item inFront
  last item atEnd := by
    have kept : (left ++ (middle ++ right)).getLast? = right.getLast? := by
      rw [← List.append_assoc, List.getLast?_append, List.getLast?_eq_some_getLast backNonempty]
      rfl
    exact back.last item (kept ▸ atEnd)

/-- Trimmed lists with items between them are trimmed together, and not empty. -/
theorem trimmed_intercalate {class? : α → Bool} (between : List α) {lists : List (List α)}
    (nonempty : lists ≠ []) (each : ∀ list ∈ lists, Trimmed class? list ∧ list ≠ []) :
    Trimmed class? (between.intercalate lists) ∧ between.intercalate lists ≠ [] := by
  induction lists with
  | nil => exact absurd rfl nonempty
  | cons first others inductionHypothesis =>
    have one := each first List.mem_cons_self
    cases others with
    | nil => simpa using one
    | cons second others =>
      have more := inductionHypothesis (by simp) fun list inside =>
        each list (List.mem_cons_of_mem _ inside)
      rw [List.intercalate_cons_cons, List.append_assoc]
      exact ⟨one.1.append more.1 one.2 more.2 between, by simp [one.2]⟩

/-- Lists with items behind each are the lists with the items between them, and the items
once more. -/
theorem flatten_append_eq_intercalate (between : List α) {lists : List (List α)}
    (nonempty : lists ≠ []) :
    lists.flatMap (· ++ between) = between.intercalate lists ++ between := by
  induction lists with
  | nil => exact absurd rfl nonempty
  | cons first others inductionHypothesis =>
    cases others with
    | nil => simp
    | cons second others =>
      rw [List.flatMap_cons, inductionHypothesis (by simp), List.intercalate_cons_cons]
      simp only [List.append_assoc]

/-- Blanks around a stripped text are removed again, and nothing else. -/
theorem strip_around (before text behind : String)
    (front : ∀ character ∈ before.toList, isBlank character = true)
    (back : ∀ character ∈ behind.toList, isBlank character = true) :
    strip (before ++ strip text ++ behind) = strip text := by
  have trimmed := trimEnds_append before.toList behind.toList front back
    (trimmed_trimEnds isBlank text.toList)
  rw [strip, strip, String.toList_append, String.toList_append, String.toList_ofList, trimmed]

/-- A stripped text is left as it is. -/
theorem strip_strip (text : String) : strip (strip text) = strip text := by
  simpa using strip_around "" text "" (by simp) (by simp)

end GraphQLCanon.Text
