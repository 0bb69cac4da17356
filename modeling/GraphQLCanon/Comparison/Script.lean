/-!
# Comparing lists

Two lists are compared by their longest common run: what lies before it and behind
it is compared in the same way. The items are the lines of two texts, or the
characters of two words. Lines that are very frequent in a long new text do not
start a run, because they would tie unrelated places together, but they extend
one.
-/

namespace GraphQLCanon.Comparison

variable {α : Type} [BEq α]

/-- A run of items that two lists share: where it starts in each, and how long it
is. -/
structure CommonRun where
  oldStart : Nat
  newStart : Nat
  length : Nat
  deriving DecidableEq, Repr

/-- The number of equal items at the front of two lists, all of them admitted. -/
def sharedLength (admits : α → Bool) : List α → List α → Nat
  | old :: oldRest, new :: newRest =>
    if old == new && admits old then sharedLength admits oldRest newRest + 1 else 0
  | _, _ => 0

/-- The better of two runs: the longer one, and the first one if they are equally
long. -/
def CommonRun.better (first second : CommonRun) : CommonRun :=
  if first.length < second.length then second else first

/-- The best of a run and the runs that start at the front of the old list and
anywhere in the new one. -/
def bestFrom (admits : α → Bool) (old : List α) (oldStart : Nat) (best : CommonRun) :
    (new : List α) → (newStart : Nat) → CommonRun
  | [], _ => best
  | line :: rest, newStart =>
    let run := ⟨oldStart, newStart, sharedLength admits old (line :: rest)⟩
    bestFrom admits old oldStart (best.better run) rest (newStart + 1)

/-- The best of a run and the runs that start anywhere in the old and the new
list. Earlier starts are preferred, first in the old list, then in the new
one. -/
def bestRun (admits : α → Bool) (new : List α) (best : CommonRun) :
    (old : List α) → (oldStart : Nat) → CommonRun
  | [], _ => best
  | line :: rest, oldStart =>
    bestRun admits new (bestFrom admits (line :: rest) oldStart best new 0) rest (oldStart + 1)

/-- A run with the equal items before it and behind it, admitted or not. -/
def CommonRun.extend (run : CommonRun) (old new : List α) : CommonRun :=
  let any := fun (_ : α) => true
  let before := sharedLength any (old.take run.oldStart).reverse (new.take run.newStart).reverse
  let behind := sharedLength any (old.drop (run.oldStart + run.length))
    (new.drop (run.newStart + run.length))
  ⟨run.oldStart - before, run.newStart - before, before + run.length + behind⟩

/-- The longest common run of two lists, in which the admitted items decide. -/
def longestRun (admits : α → Bool) (old new : List α) : CommonRun :=
  (bestRun admits new ⟨0, 0, 0⟩ old 0).extend old new

/-- A part of a comparison: items that both lists have, or items that were removed
and others that were added in their place. -/
inductive Segment (α : Type)
  | kept (items : List α)
  | changed (removed added : List α)
  deriving DecidableEq, Repr

/-- The items of a segment in the old list. -/
def Segment.old {α : Type} : Segment α → List α
  | kept items => items
  | changed removed _ => removed

/-- The items of a segment in the new list. -/
def Segment.new {α : Type} : Segment α → List α
  | kept items => items
  | changed _ added => added

/-- The number of items of a segment that both lists have. -/
def Segment.shared {α : Type} : Segment α → Nat
  | kept items => items.length
  | changed _ _ => 0

/-- The segment between two common runs, if there is anything between them. -/
def changes {α : Type} (removed added : List α) : List (Segment α) :=
  if removed.isEmpty && added.isEmpty then [] else [.changed removed added]

/-- Items that are shared at the front are items of both lists. -/
theorem sharedLength_le (admits : α → Bool) (old new : List α) :
    sharedLength admits old new ≤ old.length ∧ sharedLength admits old new ≤ new.length := by
  induction old generalizing new with
  | nil => simp [sharedLength]
  | cons line rest inductionHypothesis =>
    cases new with
    | nil => simp [sharedLength]
    | cons other others =>
      have tail := inductionHypothesis others
      simp only [sharedLength, List.length_cons]
      split <;> omega

/-- The best run from one place ends inside the old list. -/
theorem bestFrom_le (admits : α → Bool) (old new : List α) (oldStart newStart : Nat)
    (best : CommonRun) (bound : Nat) (fits : best.oldStart + best.length ≤ bound)
    (inside : oldStart + old.length ≤ bound) :
    (bestFrom admits old oldStart best new newStart).oldStart +
      (bestFrom admits old oldStart best new newStart).length ≤ bound := by
  induction new generalizing newStart best with
  | nil => exact fits
  | cons line rest inductionHypothesis =>
    apply inductionHypothesis
    have short := (sharedLength_le admits old (line :: rest)).1
    unfold CommonRun.better
    split
    · simp only
      omega
    · exact fits

/-- The best run ends inside the old list. -/
theorem bestRun_le (admits : α → Bool) (old new : List α) (oldStart : Nat)
    (best : CommonRun) (bound : Nat) (fits : best.oldStart + best.length ≤ bound)
    (inside : oldStart + old.length ≤ bound) :
    (bestRun admits new best old oldStart).oldStart +
      (bestRun admits new best old oldStart).length ≤ bound := by
  induction old generalizing oldStart best with
  | nil => exact fits
  | cons line rest inductionHypothesis =>
    apply inductionHypothesis
    · exact bestFrom_le admits (line :: rest) new oldStart 0 best bound fits inside
    · simp only [List.length_cons] at inside
      omega

/-- The longest common run ends inside the old list. -/
theorem longestRun_le (admits : α → Bool) (old new : List α) :
    (longestRun admits old new).oldStart + (longestRun admits old new).length ≤ old.length := by
  have inside := bestRun_le admits old new 0 ⟨0, 0, 0⟩ old.length (by simp) (by simp)
  unfold longestRun CommonRun.extend
  simp only
  have before := (sharedLength_le (fun _ => true)
    (old.take (bestRun admits new ⟨0, 0, 0⟩ old 0).oldStart).reverse
    (new.take (bestRun admits new ⟨0, 0, 0⟩ old 0).newStart).reverse).1
  have behind := (sharedLength_le (fun _ => true)
    (old.drop ((bestRun admits new ⟨0, 0, 0⟩ old 0).oldStart +
      (bestRun admits new ⟨0, 0, 0⟩ old 0).length))
    (new.drop ((bestRun admits new ⟨0, 0, 0⟩ old 0).newStart +
      (bestRun admits new ⟨0, 0, 0⟩ old 0).length))).1
  simp only [List.length_reverse, List.length_take, List.length_drop] at before behind
  omega

/-- Compares two lists around their longest common run. -/
def scriptBetween (admits : α → Bool) (old new : List α) : List (Segment α) :=
  let run := longestRun admits old new
  if run.length = 0 then changes old new
  else
    scriptBetween admits (old.take run.oldStart) (new.take run.newStart) ++
      [.kept ((old.drop run.oldStart).take run.length)] ++
      scriptBetween admits (old.drop (run.oldStart + run.length))
        (new.drop (run.newStart + run.length))
termination_by old.length
decreasing_by
  all_goals
    rename_i nonempty
    have positive : (longestRun admits old new).length ≠ 0 := nonempty
    have inside := longestRun_le admits old new
    simp only [List.length_take, List.length_drop]
    omega

/-- The number of lines from which on frequent lines are told apart. -/
def longText : Nat := 200

/-- True of the lines that make up more than a hundredth of a long text. -/
def isFrequent (new : List String) (line : String) : Bool :=
  longText ≤ new.length && new.length / 100 + 1 < new.count line

/-- Compares an old text with a new one, both as lists of lines. -/
def script (old new : List String) : List (Segment String) :=
  let frequent := new.eraseDups.filter (isFrequent new)
  scriptBetween (fun line => !frequent.contains line) old new

end GraphQLCanon.Comparison
