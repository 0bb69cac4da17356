import Mathlib.Data.List.Forall2

/-!
# Changes item by item

A list whose items are each related to one item of another list, in order. Where each
item is related to one item only the other list is a mapped one, and a mapping that may
fail succeeds exactly where it does for each item and fails where it first does.
-/

namespace GraphQLCanon

variable {α β γ ε : Type}

/-- Items are related to those of another list in order when two mappings make the same
list of them, if that is what relates an item to another one. -/
theorem forall₂_iff_map_eq {related : α → β → Prop} {left : α → γ} {right : β → γ}
    {source : List α}
    (each : ∀ item ∈ source, ∀ other, related item other ↔ left item = right other)
    (changed : List β) :
    List.Forall₂ related source changed ↔ source.map left = changed.map right := by
  induction source generalizing changed with
  | nil => simp [eq_comm]
  | cons first others inductionHypothesis =>
    have tails := inductionHypothesis fun item inside =>
      each item (List.mem_cons_of_mem _ inside)
    cases changed with
    | nil => simp
    | cons other rest =>
      rw [List.forall₂_cons, each first List.mem_cons_self, tails, List.map_cons, List.map_cons,
        List.cons.injEq]

/-- A list is another one with every item changed when each item has one change. -/
theorem forall₂_iff_eq_map {related : α → β → Prop} {change : α → β} {source : List α}
    (each : ∀ item ∈ source, ∀ other, related item other ↔ other = change item)
    (changed : List β) : List.Forall₂ related source changed ↔ changed = source.map change := by
  have mapped : List.Forall₂ related source changed ↔ source.map change = changed.map id :=
    forall₂_iff_map_eq (fun item inside other => (each item inside other).trans eq_comm) changed
  rw [mapped, List.map_id]
  exact eq_comm

/-- Every item of the second list is related to one of the first list. -/
theorem exists_related {related : α → β → Prop} {source : List α} {changed : List β}
    (each : List.Forall₂ related source changed) :
    ∀ other ∈ changed, ∃ item ∈ source, related item other := by
  induction each with
  | nil => simp
  | cons one _ inductionHypothesis =>
    rw [List.forall_mem_cons]
    refine ⟨⟨_, List.mem_cons_self, one⟩, fun other inside => ?_⟩
    obtain ⟨item, among, own⟩ := inductionHypothesis other inside
    exact ⟨item, List.mem_cons_of_mem _ among, own⟩

/-- One step behind another yields a result when the first one yields something and the
second one yields the result from it. -/
theorem except_bind_eq_ok_iff {first : Except ε α} {next : α → Except ε β} {result : β} :
    (first >>= next) = .ok result ↔ ∃ item, first = .ok item ∧ next item = .ok result := by
  cases first with
  | error failure => simp [bind, Except.bind]
  | ok item => simp [bind, Except.bind]

/-- A mapping that may fail yields a list when it yields each of its items. -/
theorem mapM_eq_ok_iff {change : α → Except ε β} {source : List α} {changed : List β} :
    source.mapM change = .ok changed ↔
      List.Forall₂ (fun item other => change item = .ok other) source changed := by
  induction source generalizing changed with
  | nil =>
    rw [List.mapM_nil, List.forall₂_nil_left_iff]
    exact ⟨fun same => by cases same; rfl, fun same => by rw [same]; rfl⟩
  | cons first others inductionHypothesis =>
    rw [List.mapM_cons, List.forall₂_cons_left_iff]
    constructor
    · intro yielded
      obtain ⟨other, one, yielded⟩ := except_bind_eq_ok_iff.1 yielded
      obtain ⟨rest, more, yielded⟩ := except_bind_eq_ok_iff.1 yielded
      cases yielded
      exact ⟨other, rest, one, inductionHypothesis.1 more, rfl⟩
    · rintro ⟨other, rest, one, more, rfl⟩
      rw [one, inductionHypothesis.2 more]
      rfl

/-- A mapping that may fail yields a list when it yields something for each item. -/
theorem exists_mapM_eq_ok {change : α → Except ε β} {source : List α}
    (each : ∀ item ∈ source, ∃ other, change item = .ok other) :
    ∃ changed, source.mapM change = .ok changed := by
  induction source with
  | nil => exact ⟨[], rfl⟩
  | cons first others inductionHypothesis =>
    obtain ⟨other, one⟩ := each first List.mem_cons_self
    obtain ⟨rest, more⟩ := inductionHypothesis fun item inside =>
      each item (List.mem_cons_of_mem _ inside)
    rw [List.mapM_cons, one, more]
    exact ⟨_, rfl⟩

/-- A mapping that may fail fails as it does for the first item that it fails for. -/
theorem mapM_eq_error {change : α → Except ε β} {before : List α} {item : α} {failure : ε}
    (earlier : ∀ other ∈ before, ∃ changed, change other = .ok changed)
    (fails : change item = .error failure) (behind : List α) :
    (before ++ item :: behind).mapM change = .error failure := by
  obtain ⟨changed, yielded⟩ := exists_mapM_eq_ok earlier
  rw [List.mapM_append, List.mapM_cons, yielded, fails]
  rfl

/-- What does not hold of all items has a first one of which it does not hold. -/
theorem forall_or_exists_first (holds : α → Prop) (source : List α) :
    (∀ item ∈ source, holds item) ∨ ∃ before item behind, source = before ++ item :: behind ∧
      (∀ earlier ∈ before, holds earlier) ∧ ¬ holds item := by
  induction source with
  | nil => exact .inl (by simp)
  | cons first others inductionHypothesis =>
    by_cases good : holds first
    · refine inductionHypothesis.imp (fun all => List.forall_mem_cons.2 ⟨good, all⟩) ?_
      rintro ⟨before, item, behind, rfl, earlier, bad⟩
      exact ⟨first :: before, item, behind, rfl, List.forall_mem_cons.2 ⟨good, earlier⟩, bad⟩
    · exact .inr ⟨[], first, others, rfl, by simp, good⟩

/-- What is accepted yields a result, and what is refused fails for the reason given. Where
one or the other is always the case, nothing else yields a result or fails. -/
theorem except_verdict {outcome : Except ε α} {accepted : Prop} {refused : ε → Prop}
    (yields : accepted → ∃ result, outcome = .ok result)
    (fails : ∀ reason, refused reason → outcome = .error reason)
    (decided : accepted ∨ ∃ reason, refused reason) :
    ((∃ result, outcome = .ok result) ↔ accepted) ∧
      ∀ reason, outcome = .error reason ↔ refused reason := by
  obtain yes | ⟨cause, no⟩ := decided
  · obtain ⟨result, rfl⟩ := yields yes
    refine ⟨⟨fun _ => yes, fun _ => ⟨result, rfl⟩⟩, fun reason => ⟨?_, fails reason⟩⟩
    rintro ⟨⟩
  · have failed := fails cause no
    subst failed
    refine ⟨⟨?_, yields⟩, fun reason => ⟨?_, fails reason⟩⟩
    · rintro ⟨_, ⟨⟩⟩
    · rintro ⟨⟩
      exact no

end GraphQLCanon
