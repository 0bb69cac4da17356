import Mathlib.Data.List.Basic
import GraphQLCanon.Comparison.Unified

/-!
# What a comparison shows

The segments of a script make up the two lists that it compares, whichever items decide the
runs. Lists that are equal are one kept segment, since then the longest run is the whole list;
and every change has an item. Cutting a script into hunks shortens kept segments only. So the
unified form has a removed or an added line exactly when the texts have different lines.
-/

namespace GraphQLCanon.Comparison

section Runs

variable {α : Type} {old new : List α} {run best : CommonRun}

/-- A run whose items stand in both lists. -/
structure CommonRun.Common (run : CommonRun) (old new : List α) : Prop where
  oldEnd : run.oldStart + run.length ≤ old.length
  newEnd : run.newStart + run.length ≤ new.length
  same : ∀ index < run.length, old[run.oldStart + index]? = new[run.newStart + index]?

/-- The better of two runs is as long as each of them. -/
theorem CommonRun.length_better (first second : CommonRun) :
    first.length ≤ (first.better second).length ∧
      second.length ≤ (first.better second).length := by
  unfold CommonRun.better
  split
  · constructor <;> omega
  · constructor <;> omega

/-- The better of two common runs is one of them. -/
theorem CommonRun.Common.better (one : best.Common old new) (two : run.Common old new) :
    (best.better run).Common old new := by
  unfold CommonRun.better
  split
  · exact two
  · exact one

/-- The items of a common run are the same in both lists. -/
theorem CommonRun.Common.items_eq (common : run.Common old new) :
    (old.drop run.oldStart).take run.length = (new.drop run.newStart).take run.length := by
  apply List.ext_getElem?
  intro index
  by_cases inside : index < run.length
  · simpa [List.getElem?_take_of_lt inside] using common.same index inside
  · rw [List.getElem?_take_eq_none (by omega), List.getElem?_take_eq_none (by omega)]

variable [BEq α] [LawfulBEq α] {admits : α → Bool}

variable (admits) in
/-- Items that are shared at the front are the same. -/
theorem getElem?_eq_of_lt_sharedLength (old new : List α) {index : Nat}
    (inside : index < sharedLength admits old new) : old[index]? = new[index]? := by
  induction old generalizing new index with
  | nil => simp [sharedLength] at inside
  | cons line rest inductionHypothesis =>
    cases new with
    | nil => simp [sharedLength] at inside
    | cons other others =>
      rw [sharedLength] at inside
      split at inside
      · rename_i equal
        cases index with
        | zero => simpa using And.left (by simpa using equal)
        | succ index =>
          simp only [List.getElem?_cons_succ]
          exact inductionHypothesis others (by omega)
      · contradiction

variable (admits) in
/-- The best run that starts at one place of the old list is a common run. -/
theorem common_bestFrom {oldStart newStart : Nat} {line : α} {rest behind : List α}
    (opened : old.drop oldStart = line :: rest) (left : new.drop newStart = behind)
    (common : best.Common old new) :
    (bestFrom admits (line :: rest) oldStart best behind newStart).Common old new := by
  induction behind generalizing newStart best with
  | nil => exact common
  | cons other others inductionHypothesis =>
    have next : new.drop (newStart + 1) = others := by
      rw [← List.drop_drop, left, List.drop_one, List.tail_cons]
    have oldLength := congrArg List.length opened
    have newLength := congrArg List.length left
    have short := sharedLength_le admits (line :: rest) (other :: others)
    rw [List.length_drop, List.length_cons] at oldLength newLength
    rw [List.length_cons, List.length_cons] at short
    refine inductionHypothesis next (common.better ⟨?_, ?_, ?_⟩)
    · dsimp only
      omega
    · dsimp only
      omega
    · intro index inside
      have shared := getElem?_eq_of_lt_sharedLength admits _ _ inside
      rw [← opened, ← left] at shared
      simpa using shared

variable (admits) in
/-- The best run that starts anywhere is a common run. -/
theorem common_bestRun {oldStart : Nat} {behind : List α} (left : old.drop oldStart = behind)
    (common : best.Common old new) :
    (bestRun admits new best behind oldStart).Common old new := by
  induction behind generalizing oldStart best with
  | nil => exact common
  | cons line rest inductionHypothesis =>
    have next : old.drop (oldStart + 1) = rest := by
      rw [← List.drop_drop, left, List.drop_one, List.tail_cons]
    exact inductionHypothesis next (common_bestFrom admits left rfl common)

/-- A common run stays one when it is extended by the equal items around it. -/
theorem CommonRun.Common.extend (common : run.Common old new) :
    (run.extend old new).Common old new := by
  obtain ⟨oldEnd, newEnd, same⟩ := common
  unfold CommonRun.extend
  dsimp only
  have frontShort := sharedLength_le (fun _ => true) (old.take run.oldStart).reverse
    (new.take run.newStart).reverse
  have backShort := sharedLength_le (fun _ => true) (old.drop (run.oldStart + run.length))
    (new.drop (run.newStart + run.length))
  have front := fun index => @getElem?_eq_of_lt_sharedLength α _ _ (fun _ => true)
    (old.take run.oldStart).reverse (new.take run.newStart).reverse index
  have back := fun index => @getElem?_eq_of_lt_sharedLength α _ _ (fun _ => true)
    (old.drop (run.oldStart + run.length)) (new.drop (run.newStart + run.length)) index
  simp only [List.length_reverse, List.length_take, List.length_drop] at frontShort backShort
  generalize sharedLength (fun _ => true) (old.take run.oldStart).reverse
    (new.take run.newStart).reverse = before at frontShort front ⊢
  generalize sharedLength (fun _ => true) (old.drop (run.oldStart + run.length))
    (new.drop (run.newStart + run.length)) = behind at backShort back ⊢
  refine ⟨by dsimp only; omega, by dsimp only; omega, fun index inside => ?_⟩
  dsimp only at inside ⊢
  by_cases early : index < before
  · -- The items before the run are counted backwards from its start.
    have mirrored := front (before - 1 - index) (by omega)
    rw [List.getElem?_reverse (by simp; omega), List.getElem?_reverse (by simp; omega),
      List.getElem?_take_of_lt (by simp; omega), List.getElem?_take_of_lt (by simp; omega),
      List.length_take, List.length_take] at mirrored
    have oldIndex : min run.oldStart old.length - 1 - (before - 1 - index) =
        run.oldStart - before + index := by omega
    have newIndex : min run.newStart new.length - 1 - (before - 1 - index) =
        run.newStart - before + index := by omega
    rwa [oldIndex, newIndex] at mirrored
  · by_cases late : index < before + run.length
    · have inner := same (index - before) (by omega)
      have oldIndex : run.oldStart + (index - before) = run.oldStart - before + index := by omega
      have newIndex : run.newStart + (index - before) = run.newStart - before + index := by omega
      rwa [oldIndex, newIndex] at inner
    · have outer := back (index - before - run.length) (by omega)
      rw [List.getElem?_drop, List.getElem?_drop] at outer
      have oldIndex : run.oldStart + run.length + (index - before - run.length) =
          run.oldStart - before + index := by omega
      have newIndex : run.newStart + run.length + (index - before - run.length) =
          run.newStart - before + index := by omega
      rwa [oldIndex, newIndex] at outer

variable (old new admits) in
/-- The run that decides, before it is extended, is a common run. -/
theorem common_bestRun_zero : (bestRun admits new ⟨0, 0, 0⟩ old 0).Common old new :=
  common_bestRun admits (List.drop_zero) ⟨by simp, by simp, by simp⟩

variable (old new admits) in
/-- The longest common run is a common run. -/
theorem common_longestRun : (longestRun admits old new).Common old new :=
  (common_bestRun_zero old new admits).extend

end Runs

section Scripts

variable {α : Type} (old new : List α)

/-- What lies between runs makes up the lists there. -/
theorem flatMap_changes : (changes old new).flatMap Segment.old = old ∧
    (changes old new).flatMap Segment.new = new := by
  unfold changes
  split
  · rename_i empty
    simp only [Bool.and_eq_true, List.isEmpty_iff] at empty
    simp [empty]
  · simp [Segment.old, Segment.new]

variable [BEq α] (admits : α → Bool)

/-- Every change of a script removes an item or adds one. -/
theorem nonempty_of_mem_scriptBetween {removed added : List α}
    (inside : .changed removed added ∈ scriptBetween admits old new) :
    removed ≠ [] ∨ added ≠ [] := by
  fun_induction scriptBetween admits old new with
  | case1 old new run none =>
    unfold changes at inside
    split at inside
    · simp at inside
    · rename_i nonempty
      simp only [List.mem_singleton, Segment.changed.injEq] at inside
      obtain ⟨rfl, rfl⟩ := inside
      simpa [List.isEmpty_iff, or_iff_not_imp_left] using nonempty
  | case2 old new run some before behind =>
    simp only [List.mem_append, List.mem_singleton, reduceCtorEq, or_false] at inside
    rcases inside with early | late
    · exact before early
    · exact behind late

variable [LawfulBEq α]

/-- The segments of a script make up the lists that it compares. -/
theorem flatMap_scriptBetween : (scriptBetween admits old new).flatMap Segment.old = old ∧
    (scriptBetween admits old new).flatMap Segment.new = new := by
  fun_induction scriptBetween admits old new with
  | case1 old new run none => exact flatMap_changes old new
  | case2 old new run some before behind =>
    have common := common_longestRun old new admits
    simp only [List.flatMap_append, List.flatMap_singleton, before.1, before.2, behind.1, behind.2,
      Segment.old, Segment.new]
    rw [← List.drop_drop, ← List.drop_drop, List.append_assoc, List.append_assoc,
      List.take_append_drop, List.take_append_drop]
    rw [common.items_eq, List.take_append_drop, List.take_append_drop]
    exact ⟨rfl, rfl⟩

end Scripts

section Equal

variable {α : Type} [BEq α] (admits : α → Bool)

/-- Starts in front whose runs are not longer than the best one do not change it. -/
theorem bestFrom_append {old front behind : List α} {oldStart newStart : Nat} {best : CommonRun}
    (short : ∀ index < front.length,
      sharedLength admits old ((front ++ behind).drop index) ≤ best.length) :
    bestFrom admits old oldStart best (front ++ behind) newStart =
      bestFrom admits old oldStart best behind (newStart + front.length) := by
  induction front generalizing newStart with
  | nil => rfl
  | cons line rest inductionHypothesis =>
    have first : sharedLength admits old (line :: (rest ++ behind)) ≤ best.length :=
      short 0 (by simp)
    have kept : best.better ⟨oldStart, newStart,
        sharedLength admits old (line :: (rest ++ behind))⟩ = best := by
      rw [CommonRun.better, if_neg (Nat.not_lt.2 first)]
    have others := @inductionHypothesis (newStart + 1) fun index inside =>
      short (index + 1) (by simpa using inside)
    rw [List.cons_append, bestFrom, kept, others, List.length_cons, Nat.add_right_comm,
      Nat.add_assoc]

variable [LawfulBEq α]

/-- No more is shared by two lists than each shares with itself. -/
theorem sharedLength_le_self (old new : List α) :
    sharedLength admits old new ≤ sharedLength admits old old ∧
      sharedLength admits old new ≤ sharedLength admits new new := by
  induction old generalizing new with
  | nil => simp [sharedLength]
  | cons line rest inductionHypothesis =>
    cases new with
    | nil => simp [sharedLength]
    | cons other others =>
      have tail := inductionHypothesis others
      by_cases equal : line == other && admits line
      · simp only [Bool.and_eq_true, beq_iff_eq] at equal
        obtain ⟨rfl, admitted⟩ := equal
        simp only [sharedLength, beq_self_eq_true, admitted, Bool.and_self, if_true]
        omega
      · simp [sharedLength, equal]

/-- Where all items are admitted, a list shares all of itself with itself. -/
theorem sharedLength_self (items : List α) :
    sharedLength (fun _ => true) items items = items.length := by
  induction items with
  | nil => rfl
  | cons item others inductionHypothesis => simp [sharedLength, inductionHypothesis]

/-- In two equal lists, the best run from one place starts at the same place of both when no
run before it is better than the best one. -/
theorem bestFrom_self {front rest : List α} {line : α} {best : CommonRun}
    (short : ∀ index < front.length, sharedLength admits ((front ++ line :: rest).drop index)
      ((front ++ line :: rest).drop index) ≤ best.length) :
    bestFrom admits (line :: rest) front.length best (front ++ line :: rest) 0 =
      best.better ⟨front.length, front.length,
        sharedLength admits (line :: rest) (line :: rest)⟩ := by
  have before := @bestFrom_append α _ admits (line :: rest) front (line :: rest) front.length 0
    best fun index inside => Nat.le_trans (sharedLength_le_self admits _ _).2 (short index inside)
  have behind := @bestFrom_append α _ admits (line :: rest) rest [] front.length
    (front.length + 1) (best.better ⟨front.length, front.length,
      sharedLength admits (line :: rest) (line :: rest)⟩) fun _ _ =>
        Nat.le_trans (sharedLength_le_self admits _ _).1 (best.length_better ⟨front.length,
          front.length, sharedLength admits (line :: rest) (line :: rest)⟩).2
  rw [List.append_nil] at behind
  rw [before, Nat.zero_add, bestFrom, behind, bestFrom]

/-- In two equal lists, the best run starts at the same place of both. -/
theorem bestRun_self {front old : List α} {best : CommonRun}
    (straight : best.oldStart = best.newStart)
    (short : ∀ index < front.length, sharedLength admits ((front ++ old).drop index)
      ((front ++ old).drop index) ≤ best.length) :
    (bestRun admits (front ++ old) best old front.length).oldStart =
      (bestRun admits (front ++ old) best old front.length).newStart := by
  induction old generalizing front best with
  | nil => exact straight
  | cons line rest inductionHypothesis =>
    rw [bestRun, bestFrom_self admits short]
    have split : front ++ line :: rest = (front ++ [line]) ++ rest := by simp
    have length : front.length + 1 = (front ++ [line]).length := by simp
    rw [split, length]
    apply inductionHypothesis
    · unfold CommonRun.better
      split <;> simp [straight]
    · rw [← split, ← length]
      intro index inside
      have atLeast := best.length_better ⟨front.length, front.length,
        sharedLength admits (line :: rest) (line :: rest)⟩
      rcases Nat.lt_succ_iff_lt_or_eq.1 inside with early | rfl
      · exact Nat.le_trans (short index early) atLeast.1
      · rw [List.drop_left]
        exact atLeast.2

/-- The longest common run of two equal lists is the whole list. -/
theorem longestRun_self (items : List α) :
    longestRun admits items items = ⟨0, 0, items.length⟩ := by
  have straight := @bestRun_self α _ admits _ [] items ⟨0, 0, 0⟩ rfl (by simp)
  have common := common_bestRun_zero items items admits
  simp only [List.nil_append, List.length_nil] at straight
  unfold longestRun CommonRun.extend
  generalize bestRun admits items ⟨0, 0, 0⟩ items 0 = run at straight common ⊢
  have inside := common.oldEnd
  simp only [straight, sharedLength_self, List.length_reverse, List.length_take, List.length_drop,
    CommonRun.mk.injEq] at inside ⊢
  omega

/-- Equal lists are kept as a whole. -/
theorem scriptBetween_self (items : List α) :
    scriptBetween admits items items = if items = [] then [] else [.kept items] := by
  have nothing : scriptBetween admits [] [] = [] := by
    rw [scriptBetween, longestRun_self]
    rfl
  rw [scriptBetween, longestRun_self]
  by_cases empty : items = []
  · subst empty
    rfl
  · have some : items.length ≠ 0 := by simpa using empty
    simp [empty, nothing]

end Equal

section Hunks

variable {removed added : List String}

/-- Cutting the first segment keeps every change. -/
theorem changed_mem_trimFirst {segments : List (Segment String)} :
    .changed removed added ∈ (trimFirst segments).2 ↔ .changed removed added ∈ segments := by
  unfold trimFirst
  split <;> simp

/-- Cutting the last segment keeps every change. -/
theorem changed_mem_trimLast {segments : List (Segment String)} :
    .changed removed added ∈ trimLast segments ↔ .changed removed added ∈ segments := by
  fun_induction trimLast segments with
  | case1 => rfl
  | case2 lines => simp
  | case3 segment others _ inductionHypothesis =>
    rw [List.mem_cons, List.mem_cons, inductionHypothesis]

/-- The hunks of segments have the changes of the segments and those of the open hunk. -/
theorem changed_mem_hunksFrom {current : Hunk} {segments : List (Segment String)} :
    (∃ hunk ∈ hunksFrom current segments, .changed removed added ∈ hunk.segments) ↔
      .changed removed added ∈ current.segments ∨ .changed removed added ∈ segments := by
  induction segments generalizing current with
  | nil =>
    unfold hunksFrom
    split
    · simp
    · rename_i unchanged
      have absent : Segment.changed removed added ∉ current.segments := by
        intro inside
        exact unchanged (List.any_eq_true.2 ⟨_, inside, rfl⟩)
      simp [absent]
  | cons segment others inductionHypothesis =>
    unfold hunksFrom
    cases segment with
    | changed removed' added' =>
      rw [inductionHypothesis, List.mem_append, List.mem_singleton, List.mem_cons, or_assoc]
    | kept lines =>
      dsimp only
      split
      · simp [inductionHypothesis]
      · simp [inductionHypothesis]

/-- The hunks of a script have its changes. -/
theorem changed_mem_hunks {segments : List (Segment String)} :
    (∃ hunk ∈ hunks segments, .changed removed added ∈ hunk.segments) ↔
      .changed removed added ∈ segments := by
  unfold hunks
  rw [changed_mem_hunksFrom, changed_mem_trimLast, changed_mem_trimFirst]
  simp

end Hunks

/-- A line of the unified form that shows a difference: one that was removed or added. -/
def UnifiedLine.Differs (line : UnifiedLine) : Prop := line.role = .removed ∨ line.role = .added

instance (line : UnifiedLine) : Decidable line.Differs := inferInstanceAs (Decidable (_ ∨ _))

/-- A segment shows a difference when it is a change of some line. -/
theorem differs_segment {segment : Segment String} :
    (∃ line ∈ segment.unified, line.Differs) ↔
      ∃ removed added, segment = .changed removed added ∧ (removed ≠ [] ∨ added ≠ []) := by
  cases segment with
  | kept lines => simp [Segment.unified, UnifiedLine.Differs]
  | changed removed added =>
    cases removed <;> cases added <;> simp [Segment.unified, UnifiedLine.Differs]

/-- The unified form shows a difference when its script has a change. -/
theorem differs_unified {oldTitle newTitle : String} {old new : List String} :
    (∃ line ∈ unified oldTitle newTitle old new, line.Differs) ↔
      ∃ removed added, .changed removed added ∈ script old new := by
  have inHunks : (∃ line ∈ unified oldTitle newTitle old new, line.Differs) ↔
      ∃ hunk ∈ hunks (script old new), ∃ segment ∈ hunk.segments,
        ∃ line ∈ segment.unified, line.Differs := by
    unfold unified
    split
    · rename_i none
      simp [none]
    · simp only [Hunk.unified, Hunk.header, UnifiedLine.Differs, List.mem_cons, List.mem_flatMap]
      grind
  rw [inHunks]
  simp only [differs_segment]
  constructor
  · rintro ⟨hunk, inside, -, member, removed, added, rfl, -⟩
    exact ⟨removed, added, changed_mem_hunks.1 ⟨hunk, inside, member⟩⟩
  · rintro ⟨removed, added, member⟩
    obtain ⟨hunk, inside, member'⟩ := changed_mem_hunks.2 member
    exact ⟨hunk, inside, _, member', removed, added, rfl,
      nonempty_of_mem_scriptBetween _ _ _ member⟩

/-- Lists that are kept as a whole have no hunks. -/
theorem hunks_kept (lines : List String) : hunks [.kept lines] = [] := by
  have short : ((lines.drop (lines.length - contextWidth)).take contextWidth).length ≤
      2 * contextWidth :=
    Nat.le_trans (List.length_take_le _ _) (Nat.le_mul_of_pos_left _ (by decide))
  simp only [hunks, trimFirst, trimLast, hunksFrom, if_pos short]
  rfl

/-- Equal lists of lines have no unified form. -/
theorem unified_self (oldTitle newTitle : String) (lines : List String) :
    unified oldTitle newTitle lines lines = [] := by
  have none : hunks (script lines lines) = [] := by
    rw [script, scriptBetween_self]
    split
    · rfl
    · exact hunks_kept lines
  rw [unified, none]

/-- The unified form shows a difference exactly when the texts have different lines. -/
theorem differs_unified_iff {oldTitle newTitle : String} {old new : List String} :
    (∃ line ∈ unified oldTitle newTitle old new, line.Differs) ↔ old ≠ new := by
  constructor
  · rintro shown rfl
    rw [unified_self] at shown
    simp at shown
  · intro different
    rw [differs_unified]
    by_contra unchanged
    push Not at unchanged
    have same : (script old new).flatMap Segment.old = (script old new).flatMap Segment.new := by
      refine List.flatMap_congr fun segment inside => ?_
      cases segment with
      | kept items => rfl
      | changed removed added => exact absurd inside (unchanged removed added)
    have parts := flatMap_scriptBetween old new
      (fun line => !(new.eraseDups.filter (isFrequent new)).contains line)
    exact different (parts.1.symm.trans (same.trans parts.2))

end GraphQLCanon.Comparison
