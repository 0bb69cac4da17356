import Mathlib.Data.List.SplitBy
import GraphQLCanon.Proofs.StoreWriting
import GraphQLCanon.Proofs.Trimming

/-!
# Names of files in messages

A message names a file by its path without empty components and single dots. That path has the
components of the path that was given and begins at the root exactly when it does, so it leads to
the same file.
-/

namespace GraphQLCanon.CommandLine

/-- A component of a path: it is not empty, and there is no slash in it. -/
def IsComponent (component : String) : Prop := component ≠ "" ∧ '/' ∉ component.toList

section Components

/-- Behind a slash the components of a path begin anew. -/
theorem pathComponents_slash (front behind : String) :
    pathComponents (front ++ "/" ++ behind) = pathComponents front ++ pathComponents behind := by
  have slash : "/".toList = ['/'] := rfl
  have alone : ['/'].splitBy (fun left right => left != '/' && right != '/') = [['/']] := rfl
  unfold pathComponents
  rw [String.toList_append, String.toList_append, slash, List.splitBy_append (by simp),
    List.splitBy_append (by simp), alone]
  simp

/-- A component is a path of one component. -/
theorem pathComponents_component {component : String} (plain : IsComponent component) :
    pathComponents component = [component] := by
  obtain ⟨nonempty, noSlash⟩ := plain
  have chain : component.toList.IsChain fun left right => (left != '/' && right != '/') = true := by
    refine List.Pairwise.isChain (List.pairwise_of_forall_mem_list fun left early right late => ?_)
    have apart {character : Char} (inside : character ∈ component.toList) : character ≠ '/' :=
      fun same => noSlash (same ▸ inside)
    simp [apart early, apart late]
  have other : component.toList ≠ ['/'] := fun same => noSlash (by simp [same])
  unfold pathComponents
  rw [List.splitBy_of_isChain (by simpa using nonempty) chain]
  simp [other]

/-- Characters that are all joined to their neighbours have no slash among them, unless they are
one slash alone. -/
theorem slash_not_mem_of_isChain {part : List Char} (other : part ≠ ['/'])
    (chain : part.IsChain fun left right => (left != '/' && right != '/') = true) :
    '/' ∉ part := by
  induction part with
  | nil => exact List.not_mem_nil
  | cons first others inductionHypothesis =>
    cases others with
    | nil => simpa [eq_comm] using other
    | cons second others =>
      obtain ⟨joined, behind⟩ := List.isChain_cons_cons.1 chain
      simp only [Bool.and_eq_true, bne_iff_ne] at joined
      have further := inductionHypothesis (by simp [joined.2]) behind
      simpa [joined.1, eq_comm] using further

/-- What a path is made of are components. -/
theorem isComponent_of_mem {path component : String} (inside : component ∈ pathComponents path) :
    IsComponent component := by
  obtain ⟨part, among, taken⟩ := List.mem_filterMap.1 inside
  split at taken
  · cases taken
  · rename_i other
    obtain rfl := Option.some.inj taken
    refine ⟨by simpa using List.ne_nil_of_mem_splitBy among, ?_⟩
    rw [String.toList_ofList]
    exact slash_not_mem_of_isChain other (List.isChain_of_mem_splitBy among)

/-- Components with slashes between them are a path of these components. -/
theorem pathComponents_intercalate {components : List String}
    (plain : ∀ component ∈ components, IsComponent component) :
    pathComponents ("/".intercalate components) = components := by
  induction components with
  | nil => rfl
  | cons first others inductionHypothesis =>
    rw [List.forall_mem_cons] at plain
    cases others with
    | nil => simpa using pathComponents_component plain.1
    | cons second others =>
      rw [String.intercalate_cons_cons, pathComponents_slash, pathComponents_component plain.1,
        inductionHypothesis plain.2]
      rfl

end Components

section Names

variable (path : String)

/-- A path is shown with no slash in front, or with one or two if it begins at the root. -/
theorem leadingSlashes_cases :
    isAbsolute path = false ∧ leadingSlashes path = "" ∨
      isAbsolute path = true ∧ (leadingSlashes path = "/" ∨ leadingSlashes path = "//") := by
  unfold isAbsolute leadingSlashes
  cases path.toList with
  | nil => exact .inl ⟨rfl, rfl⟩
  | cons first others =>
    by_cases slash : first = '/'
    · refine .inr ⟨by simp [slash], ?_⟩
      split <;> simp_all
    · exact .inl ⟨by simp [slash], by simp [slash]⟩

/-- Slashes in front are no components. -/
theorem pathComponents_leadingSlashes (behind : String) :
    pathComponents (leadingSlashes path ++ behind) = pathComponents behind := by
  rcases leadingSlashes_cases path with ⟨-, none⟩ | ⟨-, one | two⟩
  · rw [none, String.empty_append]
  · rw [one]
    exact pathComponents_slash "" behind
  · rw [two]
    exact pathComponents_slash "/" behind

/-- The components that mean something are components, and no single dots. -/
theorem isComponent_of_significant {component : String}
    (inside : component ∈ significantComponents path) :
    IsComponent component ∧ component ≠ "." := by
  obtain ⟨among, noDot⟩ := List.mem_filter.1 inside
  exact ⟨isComponent_of_mem among, by simpa using noDot⟩

/-- Components with slashes between them do not begin or end with a slash. -/
theorem trimmed_significantComponents (some : significantComponents path ≠ []) :
    Text.Trimmed (· == '/') ("/".intercalate (significantComponents path)).toList ∧
      ("/".intercalate (significantComponents path)).toList ≠ [] := by
  rw [String.toList_intercalate]
  refine Text.trimmed_intercalate _ (by simpa using some) ?_
  rw [List.forall_mem_map]
  intro component inside
  obtain ⟨⟨nonempty, noSlash⟩, -⟩ := isComponent_of_significant path inside
  have apart {character : Char} (among : character ∈ component.toList) :
      (character == '/') = false := by
    rw [beq_eq_false_iff_ne]
    rintro rfl
    exact noSlash among
  exact ⟨⟨fun _ inFront => apart (List.mem_of_mem_head? inFront),
    fun _ atEnd => apart (List.mem_of_mem_getLast? atEnd)⟩, by simpa using nonempty⟩

/-- A path with a component that means something is shown by slashes and such components. -/
theorem normalPath_of_ne_nil (some : significantComponents path ≠ []) :
    normalPath path = leadingSlashes path ++ "/".intercalate (significantComponents path) := by
  have nonempty : (leadingSlashes path ++ "/".intercalate (significantComponents path)).isEmpty =
      false := by
    rw [← Bool.not_eq_true, String.isEmpty_iff, ← String.toList_eq_nil_iff, String.toList_append]
    exact List.append_ne_nil_of_right_ne_nil _ (trimmed_significantComponents path some).2
  rw [normalPath, nonempty, cond_false]

/-- The path that is shown has the components that mean something, and no others. -/
theorem pathComponents_normalPath (some : significantComponents path ≠ []) :
    pathComponents (normalPath path) = significantComponents path := by
  rw [normalPath_of_ne_nil path some, pathComponents_leadingSlashes]
  exact pathComponents_intercalate fun _ inside => (isComponent_of_significant path inside).1

/-- The path that is shown begins at the root exactly when the path does. -/
theorem isAbsolute_normalPath (some : significantComponents path ≠ []) :
    isAbsolute (normalPath path) = isAbsolute path := by
  rw [normalPath_of_ne_nil path some]
  rcases leadingSlashes_cases path with ⟨relative, none⟩ | ⟨absolute, one | two⟩
  · have trimmed := (trimmed_significantComponents path some).1
    rw [relative, none, String.empty_append, isAbsolute, beq_eq_false_iff_ne]
    intro slash
    simpa using trimmed.head _ slash
  · rw [absolute, one, isAbsolute, String.toList_append]
    rfl
  · rw [absolute, two, isAbsolute, String.toList_append]
    rfl

/-- The path that is shown may name a file: it does not end in a slash or in a single dot. -/
theorem namesDirectory_normalPath (some : significantComponents path ≠ []) :
    namesDirectory (normalPath path) = false := by
  rw [namesDirectory, pathComponents_normalPath path some, Bool.or_eq_false_iff,
    beq_eq_false_iff_ne, beq_eq_false_iff_ne]
  constructor
  · obtain ⟨trimmed, nonempty⟩ := trimmed_significantComponents path some
    intro slash
    rw [normalPath_of_ne_nil path some, String.toList_append,
      List.getLast?_append_of_ne_nil _ nonempty] at slash
    simpa using trimmed.last _ slash
  · intro dot
    exact (isComponent_of_significant path (List.mem_of_mem_getLast? dot)).2 rfl

variable {path}

/-- A path leads to a place when the walk along it ends there, and in a directory if the path can
only name one. -/
theorem Store.resolve?_eq_some {store : Store} {place : Place} :
    store.resolve? path = some place ↔
      path ≠ "" ∧ store.walk? (startPlace path) (significantComponents path) = some place ∧
        (namesDirectory path = true → store.isDirectory place = true) := by
  unfold Store.resolve?
  by_cases empty : path = ""
  · simp [empty]
  · cases namesDirectory path <;> simp [empty, Option.filter_eq_some_iff]

/-- The path that is shown for a file leads to it. -/
theorem resolve?_normalPath {store : Store} {content : String}
    (isFile : store.entry path = .file content) :
    store.resolve? (normalPath path) = store.resolve? path := by
  obtain ⟨place, resolved, plain, -⟩ := Store.entry_eq_file.1 isFile
  obtain ⟨-, walked, -⟩ := Store.resolve?_eq_some.1 resolved
  -- Without a component the walk would end where it begins, in a directory.
  have some : significantComponents path ≠ [] := by
    intro none
    rw [none] at walked
    obtain rfl := Option.some.inj walked
    unfold startPlace at plain
    split at plain <;> simp [Store.isDirectory, Place.isGiven] at plain
  have same : significantComponents (normalPath path) = significantComponents path := by
    rw [significantComponents, pathComponents_normalPath path some, significantComponents,
      List.filter_filter]
    simp
  refine (Store.resolve?_eq_some.2 ⟨?_, ?_, ?_⟩).trans resolved.symm
  · intro empty
    rw [empty] at same
    exact some same.symm
  · rw [startPlace, isAbsolute_normalPath path some, same]
    exact walked
  · simp [namesDirectory_normalPath path some]

end Names

/-- Two slashes in front are kept, a third one is not. -/
example : ["//a/./b", "///a//b", "a/..", "./", "//"].map normalPath =
    ["//a/b", "/a/b", "a/..", ".", "//"] := by
  cbv

end GraphQLCanon.CommandLine
