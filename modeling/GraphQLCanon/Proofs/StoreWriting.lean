import GraphQLCanon.CommandLine.Store

/-!
# Writing to files

Writing a file changes the content of the place that its path leads to, and nothing
else: no path leads elsewhere, and no directory appears or vanishes. Several paths may
lead to one place.
-/

namespace GraphQLCanon.CommandLine.Store

/-- Writing leaves the directories. -/
theorem directories_write (store : Store) (path content : String) :
    (store.write path content).directories = store.directories := by
  unfold write
  split <;> rfl

variable {store other : Store}

/-- What is a directory depends on the directories only. -/
theorem isDirectory_congr (same : other.directories = store.directories) (place : Place) :
    other.isDirectory place = store.isDirectory place := by
  rw [isDirectory, isDirectory, same]

/-- Where a walk ends depends on the directories only. -/
theorem walk?_congr (same : other.directories = store.directories) (place : Place)
    (components : List String) : other.walk? place components = store.walk? place components := by
  induction components generalizing place with
  | nil => rfl
  | cons component others inductionHypothesis =>
    rw [walk?, walk?, isDirectory_congr same, inductionHypothesis]

/-- Where a path leads depends on the directories only. -/
theorem resolve?_congr (same : other.directories = store.directories) (path : String) :
    other.resolve? path = store.resolve? path := by
  unfold resolve?
  simp only [walk?_congr same, isDirectory_congr same]

/-- A path leads to a file when it resolves to the place of the file. -/
theorem entry_eq_file {path content : String} :
    store.entry path = .file content ↔ ∃ place, store.resolve? path = some place ∧
      store.isDirectory place = false ∧ store.contentAt? place = some content := by
  unfold entry
  cases resolved : store.resolve? path with
  | none => simp
  | some place =>
    cases directory : store.isDirectory place <;>
      cases found : store.contentAt? place <;> simp [directory, found]

/-- Another content for one place is found there, if a file is, and nowhere else. -/
theorem contentAt?_replaced (files : List (Place × String)) (directories : List Place)
    (written place : Place) (content : String) :
    contentAt? ⟨files.map fun file => if file.1 = written then (written, content) else file,
        directories⟩ place =
      if place = written then (contentAt? ⟨files, directories⟩ place).map fun _ => content
      else contentAt? ⟨files, directories⟩ place := by
  have keyed : ((fun file : Place × String => file.1 == place) ∘ fun file =>
      if file.1 = written then (written, content) else file) = fun file => file.1 == place := by
    funext file
    by_cases same : file.1 = written <;> simp [same]
  rw [contentAt?, contentAt?, List.find?_map, keyed]
  cases found : files.find? fun file => file.1 == place with
  | none => simp
  | some file =>
    have key : file.1 = place := by simpa using List.find?_some found
    by_cases same : place = written <;> simp [key, same]

variable {written path old content : String} (new : String)

/-- The content of a file that is written is found again. -/
theorem entry_write (isFile : store.entry written = .file old) :
    (store.write written new).entry written = .file new := by
  obtain ⟨place, resolved, noDirectory, found⟩ := entry_eq_file.1 isFile
  have same := directories_write store written new
  refine entry_eq_file.2 ⟨place, ?_, ?_, ?_⟩
  · rw [resolve?_congr same, resolved]
  · rw [isDirectory_congr same, noDirectory]
  · unfold write
    rw [resolved]
    exact (contentAt?_replaced ..).trans (by rw [if_pos rfl]; simp [found])

/-- What a path leads to stays as it is when the file at another place is written. -/
theorem entry_write_of_ne (apart : store.resolve? written ≠ store.resolve? path) :
    (store.write written new).entry path = store.entry path := by
  have same := directories_write store written new
  unfold entry
  rw [resolve?_congr same]
  cases led : store.resolve? path with
  | none => rfl
  | some other =>
    have content? : (store.write written new).contentAt? other = store.contentAt? other := by
      unfold write
      cases resolved : store.resolve? written with
      | none => rfl
      | some place =>
        rw [resolved, led, ne_eq, Option.some.injEq] at apart
        exact (contentAt?_replaced ..).trans (if_neg (Ne.symm apart))
    simp only [isDirectory_congr same, content?]

/-- A file keeps its content when another one is written. Otherwise both paths lead to
one file, which gets the content that was written. -/
theorem entry_write_or (isFile : store.entry written = .file old)
    (found : store.entry path = .file content) :
    (store.write written new).entry path = .file content ∨
      content = old ∧ (store.write written new).entry path = .file new := by
  obtain ⟨place, resolved, noDirectory, there⟩ := entry_eq_file.1 isFile
  obtain ⟨other, led, plain, here⟩ := entry_eq_file.1 found
  have same := directories_write store written new
  have content? : (store.write written new).contentAt? other =
      if other = place then some new else some content := by
    unfold write
    rw [resolved]
    exact (contentAt?_replaced ..).trans (by simp [here])
  by_cases one : other = place
  · subst one
    refine .inr ⟨Option.some.inj (here.symm.trans there), entry_eq_file.2 ⟨other, ?_, ?_, ?_⟩⟩
    · rw [resolve?_congr same, led]
    · rw [isDirectory_congr same, plain]
    · rw [content?, if_pos rfl]
  · refine .inl (entry_eq_file.2 ⟨other, ?_, ?_, ?_⟩)
    · rw [resolve?_congr same, led]
    · rw [isDirectory_congr same, plain]
    · rw [content?, if_neg one]

end GraphQLCanon.CommandLine.Store
