import Mathlib.Data.List.TakeWhile
import GraphQLCanon.Proofs.ArgumentSorting
import GraphQLCanon.Proofs.PathNames
import GraphQLCanon.Proofs.QueryRefusals
import GraphQLCanon.Proofs.Reclassification
import GraphQLCanon.Proofs.SchemaRefusals
import GraphQLCanon.Proofs.Visits

/-!
# Runs over several files

A run visits its files in order, up to the first one that has no canonical form. What it
prints and writes for a file depends on the content of that file only, since no other visit
of the run changes it: the files lie at different places. So a run is the sequence of the
runs on each of the files that it reaches, and a failure takes back nothing of what was
done before it and does nothing behind it.
-/

namespace GraphQLCanon.CommandLine

section Arguments

/-- Arguments that were told apart, written with long names and with the files behind a
double dash. -/
def Sorted.spelled (sorted : Sorted) : List String :=
  sorted.flags.map Flag.long ++
    (sorted.widths.flatMap (fun given => [given.1.long, given.2]) ++ "--" :: sorted.files)

/-- The same flags and widths for one file. -/
def Sorted.alone (sorted : Sorted) (path : String) : Sorted := { sorted with files := [path] }

/-- A width in front is told apart as a width. -/
theorem sortArguments_width (width : Width) (value : String) (arguments : List String) :
    sortArguments ⟨[], [], []⟩ (width.long :: value :: arguments) =
      (sortArguments ⟨[], [], []⟩ arguments).map (Sorted.behind ⟨[], [(width, value)], []⟩) := by
  have opened : sortArguments ⟨[], [], []⟩ (width.long :: value :: arguments) =
      sortArguments (Sorted.behind ⟨[], [(width, value)], []⟩ ⟨[], [], []⟩) arguments := by
    cases width <;> rfl
  rw [opened, sortArguments_behind]

/-- Arguments that were written from what was told apart are told apart as that. -/
theorem sortArguments_spelled (sorted : Sorted) :
    sortArguments ⟨[], [], []⟩ sorted.spelled = .ok sorted := by
  obtain ⟨flags, widths, files⟩ := sorted
  induction flags with
  | nil =>
    induction widths with
    | nil => rfl
    | cons given others inductionHypothesis =>
      have step := sortArguments_width given.1 given.2 (Sorted.spelled ⟨[], others, files⟩)
      rw [inductionHypothesis] at step
      exact step
  | cons flag others inductionHypothesis =>
    have step := sortArguments_flag flag (Sorted.spelled ⟨others, widths, files⟩)
    rw [inductionHypothesis] at step
    exact step

/-- Where arguments can be carried out, they can be for each of their files. -/
theorem Sorted.Admits.alone {sorted : Sorted} {store : Store} {options : Options}
    (admitted : sorted.Admits store options) {path : String} (inside : path ∈ sorted.files) :
    (sorted.alone path).Admits store options where
  checked := admitted.checked
  widths := admitted.widths
  nonempty := List.cons_ne_nil _ _
  there := by
    intro other only
    rw [List.mem_singleton.1 only]
    exact admitted.there path inside
  single := admitted.single

end Arguments

section Sequences

/-- A run that went on over some files that all have canonical forms in a store. -/
structure Progress.Passes (request : Request) (colour : Bool) (store : Store)
    (progress next : Progress) (files : List String) : Prop where
  output : next.output = progress.output ++ String.join (files.map (request.shown colour store))
  errors : next.errors = progress.errors ++ String.join (files.map (request.notes colour store))
  unformatted : next.unformatted = progress.unformatted + files.countP (request.counts store)
  directories : next.store.directories = progress.store.directories
  written : request.write = true → ∀ path ∈ files, ∀ form,
    store.canonicalForm request.options path = .ok form →
      next.store.entry path = .file (form ++ "\n")
  untouched : request.write = false → next.store = progress.store
  kept : ∀ path, (∀ one ∈ files, store.resolve? one ≠ store.resolve? path) →
    next.store.entry path = progress.store.entry path

/-- A store in which some paths lead where they led, and to the same. -/
structure Store.Agrees (store other : Store) (files : List String) : Prop where
  directories : other.directories = store.directories
  same : ∀ path ∈ files, other.entry path = store.entry path

variable {request : Request} {colour : Bool} {store other : Store} {path : String}
  {files others : List String} {progress middle next : Progress}

/-- What stands in the files that are left is what stood in them. -/
theorem Store.Agrees.content (agrees : store.Agrees other files) (inside : path ∈ files) :
    other.content path = store.content path := by
  rw [Store.content, Store.content, agrees.same path inside]

variable (request colour) in
/-- What is said and printed of a file depends on its content only. -/
theorem Store.Agrees.share (agrees : store.Agrees other files) (inside : path ∈ files) :
    other.canonicalForm request.options path = store.canonicalForm request.options path ∧
      request.announcement colour other path = request.announcement colour store path ∧
      request.shown colour other path = request.shown colour store path ∧
      request.notes colour other path = request.notes colour store path ∧
      request.counts other path = request.counts store path := by
  have form : other.canonicalForm request.options path =
      store.canonicalForm request.options path := by
    rw [Store.canonicalForm, Store.canonicalForm, agrees.content inside]
  have announced : request.announcement colour other path =
      request.announcement colour store path := by
    rw [Request.announcement, Request.announcement, agrees.content inside]
  have shownAs : request.shownAs colour other path = request.shownAs colour store path := by
    funext printed
    rw [Request.shownAs, Request.shownAs, agrees.content inside]
  refine ⟨form, announced, ?_, ?_, ?_⟩
  · rw [Request.shown, Request.shown, form, shownAs]
  · rw [Request.notes, Request.notes, announced]
  · rw [Request.counts, Request.counts, form, agrees.content inside]

/-- A run that has passed no file. -/
theorem Progress.Passes.refl (progress : Progress) :
    progress.Passes request colour store progress [] where
  output := by simp
  errors := by simp
  unformatted := by simp
  directories := rfl
  written := by simp
  untouched := fun _ => rfl
  kept := fun _ _ => rfl

/-- Files at other places are passed behind a first one. -/
theorem Progress.Passes.cons (first : progress.Passes request colour store middle [path])
    (further : middle.Passes request colour store next others)
    (apart : ∀ one ∈ others, store.resolve? one ≠ store.resolve? path) :
    progress.Passes request colour store next (path :: others) where
  output := by rw [further.output, first.output]; simp [String.append_assoc]
  errors := by rw [further.errors, first.errors]; simp [String.append_assoc]
  unformatted := by
    have counted : List.countP (request.counts store) (path :: others) =
        List.countP (request.counts store) [path] + List.countP (request.counts store) others := by
      rw [← List.countP_append, List.singleton_append]
    rw [further.unformatted, first.unformatted, counted, Nat.add_assoc]
  directories := further.directories.trans first.directories
  written := by
    intro write one inside form accepted
    rcases List.mem_cons.1 inside with rfl | later
    · rw [further.kept one apart]
      exact first.written write one List.mem_cons_self form accepted
    · exact further.written write one later form accepted
  untouched := fun noWrite => (further.untouched noWrite).trans (first.untouched noWrite)
  kept := by
    intro other elsewhere
    rw [List.forall_mem_cons] at elsewhere
    rw [further.kept other elsewhere.2]
    exact first.kept other (by simpa using elsewhere.1)

/-- One file that has a canonical form is passed by a visit. -/
theorem passes_visit {form : String} (single : ¬(request.write = true ∧ request.check = true))
    (agrees : store.Agrees progress.store [path])
    (there : ∃ content, store.entry path = .file content)
    (accepted : store.canonicalForm request.options path = .ok form) :
    ∃ next, progress.visit request colour path = .ok next ∧
      progress.Passes request colour store next [path] := by
  obtain ⟨sameForm, -, sameShown, sameNotes, sameCounts⟩ :=
    agrees.share request colour List.mem_cons_self
  obtain ⟨content, found⟩ := there
  rw [← agrees.same path List.mem_cons_self] at found
  have visited := visit_accepted colour single (sameForm.trans accepted)
  rw [sameShown, sameNotes, sameCounts] at visited
  refine ⟨_, visited, by simp, by simp, by simp [List.countP_singleton], ?_, ?_, ?_, ?_⟩
  · dsimp only
    split
    · exact Store.directories_write ..
    · rfl
  · intro write one inside other again
    rw [List.mem_singleton.1 inside] at again ⊢
    obtain rfl := Except.ok.inj (accepted.symm.trans again)
    simp only [write, if_true]
    exact Store.entry_write _ found
  · intro noWrite
    simp [noWrite]
  · intro one elsewhere
    dsimp only
    split
    · apply Store.entry_write_of_ne
      rw [Store.resolve?_congr agrees.directories, Store.resolve?_congr agrees.directories]
      exact elsewhere path List.mem_cons_self
    · rfl

/-- What is left to visit agrees with the store behind a file at another place. -/
theorem Store.Agrees.behind (agrees : store.Agrees progress.store (path :: others))
    (passes : progress.Passes request colour store next [path])
    (apart : ∀ one ∈ others, store.resolve? one ≠ store.resolve? path) :
    store.Agrees next.store others where
  directories := passes.directories.trans agrees.directories
  same := by
    intro one inside
    rw [passes.kept one (by simpa using (apart one inside).symm)]
    exact agrees.same one (List.mem_cons_of_mem _ inside)

variable (colour) in
/-- A run over files at different places passes those that have canonical forms, and goes
on with the others as if they were visited in the store that it began with. -/
theorem passes_visitAll (single : ¬(request.write = true ∧ request.check = true))
    (apart : ((files ++ others).map store.resolve?).Nodup)
    (agrees : store.Agrees progress.store (files ++ others))
    (there : ∀ path ∈ files, ∃ content, store.entry path = .file content)
    (accepted : ∀ path ∈ files, ∃ form, store.canonicalForm request.options path = .ok form) :
    ∃ next, progress.Passes request colour store next files ∧
      store.Agrees next.store others ∧
      progress.visitAll request colour (files ++ others) =
        next.visitAll request colour others := by
  induction files generalizing progress with
  | nil => exact ⟨progress, .refl progress, agrees, rfl⟩
  | cons path files inductionHypothesis =>
    rw [List.forall_mem_cons] at there accepted
    rw [List.cons_append, List.map_cons, List.nodup_cons] at apart
    obtain ⟨form, own⟩ := accepted.1
    have elsewhere : ∀ one ∈ files ++ others, store.resolve? one ≠ store.resolve? path := by
      intro one inside same
      exact apart.1 (List.mem_map.2 ⟨one, inside, same⟩)
    have alone : store.Agrees progress.store [path] :=
      ⟨agrees.directories, by simpa using agrees.same path List.mem_cons_self⟩
    obtain ⟨middle, visited, first⟩ := passes_visit single alone there.1 own
    obtain ⟨next, further, left, onward⟩ :=
      inductionHypothesis apart.2 (agrees.behind first elsewhere) there.2 accepted.2
    refine ⟨next, first.cons further fun one inside =>
      elsewhere one (List.mem_append_left _ inside), left, ?_⟩
    rw [List.cons_append, Progress.visitAll, visited]
    exact onward

end Sequences

section Runs

/-- The files that a run reaches: those in front of the first one without canonical form. -/
def Request.reached (request : Request) (store : Store) : List String :=
  request.files.takeWhile fun path => (store.canonicalForm request.options path).isOk

variable {request : Request} {store : Store} {colour : Bool}

/-- What a run reaches has canonical forms. -/
theorem accepted_of_reached {path : String} (inside : path ∈ request.reached store) :
    ∃ form, store.canonicalForm request.options path = .ok form := by
  have ok := List.mem_takeWhile_imp inside
  cases formed : store.canonicalForm request.options path with
  | ok form => exact ⟨form, rfl⟩
  | error error =>
    rw [formed] at ok
    cases ok

/-- A run reaches all of its files, or there is a first one without canonical form behind
those that it reaches. -/
theorem reached_cases (request : Request) (store : Store) :
    request.reached store = request.files ∨
      ∃ path behind error, request.files = request.reached store ++ path :: behind ∧
        store.canonicalForm request.options path = .error error := by
  unfold Request.reached
  obtain all | ⟨before, path, behind, listed, earlier, refused⟩ := forall_or_exists_first
    (fun path => (store.canonicalForm request.options path).isOk = true) request.files
  · exact .inl (List.takeWhile_eq_self_iff.2 all)
  · have stopped : (path :: behind).takeWhile
        (fun path => (store.canonicalForm request.options path).isOk) = [] :=
      List.takeWhile_cons_of_neg refused
    rw [listed, List.takeWhile_append_of_pos earlier, stopped, List.append_nil]
    cases formed : store.canonicalForm request.options path with
    | ok form =>
      rw [formed] at refused
      exact absurd rfl refused
    | error error => exact .inr ⟨path, behind, error, rfl, formed⟩

/-- A text is refused for its syntax or for a construct: no printer comes back from a depth
that it never entered. -/
theorem formatText_ne_unbalanced {text : String} {options : Options} {error : FormatError}
    (refused : formatText text options = .error error) : error ≠ .unprintable .unbalanced := by
  rintro rfl
  rw [formatText_eq] at refused
  split at refused
  · rcases schemaAccepted_or_refused text options.strictDescriptions with accepted | ⟨error, own⟩
    · obtain ⟨result, formatted⟩ := formatSchema_of_accepted accepted
      rw [formatted] at refused
      cases refused
    · rw [formatSchema_of_refused own] at refused
      obtain rfl := Except.error.inj refused
      cases own
  · rcases queryAccepted_or_refused text with accepted | ⟨error, own⟩
    · obtain ⟨result, formatted⟩ := formatQuery_of_accepted accepted options
      rw [formatted] at refused
      cases refused
    · rw [formatQuery_of_refused own] at refused
      obtain rfl := Except.error.inj refused
      cases own

variable (colour) in
/-- A run on files at different places is the sequence of its files. What is written, printed
and said is that of the files that it reaches, one after the other; where it does not reach
all of them, it says why and ends. -/
theorem Request.run_eq (single : ¬(request.write = true ∧ request.check = true))
    (apart : (request.files.map store.resolve?).Nodup)
    (there : ∀ path ∈ request.files, ∃ content, store.entry path = .file content) :
    ∃ next, Progress.Passes request colour store ⟨store, "", "", 0⟩ next
        (request.reached store) ∧
      (request.reached store = request.files ∧
          request.run store colour =
            (if next.unformatted = 0 then next.outcome 0
            else (next.warn colour
              ("\n" ++ toString next.unformatted ++ " file(s) would be reformatted.")).outcome 1) ∨
        ∃ path behind error, request.files = request.reached store ++ path :: behind ∧
          store.canonicalForm request.options path = .error error ∧
          request.run store colour =
            Progress.outcome { next with
              errors := next.errors ++ (request.announcement colour store path ++
                echoed colour ("Error: " ++ normalPath path ++ ": " ++ error.message)) } 1) := by
  have reaches : ∀ path ∈ request.reached store,
      ∃ form, store.canonicalForm request.options path = .ok form :=
    fun _ inside => accepted_of_reached inside
  rcases reached_cases request store with all | ⟨path, behind, error, listed, refused⟩
  · have agrees : store.Agrees (Progress.mk store "" "" 0).store (request.reached store ++ []) :=
      ⟨rfl, fun _ _ => rfl⟩
    obtain ⟨next, passes, -, visited⟩ := passes_visitAll colour single
      (by simpa [all] using apart) agrees (by simpa [all] using there) reaches
    refine ⟨next, passes, .inl ⟨all, ?_⟩⟩
    rw [List.append_nil, all] at visited
    rw [Request.run, visited]
    rfl
  · have agrees : store.Agrees (Progress.mk store "" "" 0).store
        (request.reached store ++ path :: behind) := ⟨rfl, fun _ _ => rfl⟩
    have inside : ∀ one ∈ request.reached store, one ∈ request.files :=
      fun one inside => (List.takeWhile_prefix _).subset inside
    obtain ⟨next, passes, left, visited⟩ := passes_visitAll colour single (listed ▸ apart)
      agrees (fun one reached => there one (inside one reached)) reaches
    refine ⟨next, passes, .inr ⟨path, behind, error, listed, refused, ?_⟩⟩
    obtain ⟨sameForm, sameAnnouncement, -⟩ :=
      left.share request colour List.mem_cons_self
    have stopped := visit_refused colour (sameForm.trans refused)
    rw [← listed] at visited
    rw [Request.run, visited, Progress.visitAll, stopped, sameAnnouncement]
    rfl

variable {sorted : Sorted} {options : Options}

/-- Arguments that can be carried out do not ask both for writing and for checking. -/
theorem Sorted.Admits.modes (admitted : sorted.Admits store options) :
    ¬((sorted.requestUnder options).write = true ∧ (sorted.requestUnder options).check = true) := by
  simpa [Sorted.requestUnder] using admitted.single

/-- A run on one file alone prints what a longer run prints for the file when it reaches it. -/
theorem output_alone (colour : Bool) (noHelp : .help ∉ sorted.flags)
    (admitted : sorted.Admits store options) {path : String}
    (inside : path ∈ (sorted.requestUnder options).reached store) :
    (run store ("format" :: (sorted.alone path).spelled) colour).output =
      (sorted.requestUnder options).shown colour store path := by
  have listed : path ∈ sorted.files := (List.takeWhile_prefix _).subset inside
  have own := admitted.alone listed
  have reached : ((sorted.alone path).requestUnder options).reached store = [path] := by
    obtain ⟨form, accepted⟩ := accepted_of_reached inside
    have formed : store.canonicalForm options path = .ok form := accepted
    simp [Request.reached, Sorted.requestUnder, Sorted.alone, formed, Except.isOk, Except.toBool]
  have told := sortArguments_spelled (sorted.alone path)
  rw [run_of_told colour told noHelp own]
  obtain ⟨next, passes, ⟨-, run⟩ | ⟨other, behind, error, files, -⟩⟩ :=
    Request.run_eq colour own.modes (by simp [Sorted.requestUnder, Sorted.alone])
      own.there
  · have same : ((sorted.alone path).requestUnder options).shown colour store path =
        (sorted.requestUnder options).shown colour store path :=
      shown_files (sorted.requestUnder options) [path]
    have printed : next.output = (sorted.requestUnder options).shown colour store path := by
      rw [passes.output, reached]
      simpa using same
    rw [run]
    split
    · exact printed
    · exact printed
  · rw [reached] at files
    simp [Sorted.requestUnder, Sorted.alone] at files

/-- Where it reaches them, runs on each file alone print what the run prints for them. -/
theorem map_output_alone (colour : Bool) (noHelp : .help ∉ sorted.flags)
    (admitted : sorted.Admits store options) :
    (((sorted.requestUnder options).reached store).map fun path =>
        (run store ("format" :: (sorted.alone path).spelled) colour).output) =
      ((sorted.requestUnder options).reached store).map
        ((sorted.requestUnder options).shown colour store) :=
  List.map_congr_left fun _ inside => output_alone colour noHelp admitted inside

/-- A run that does not tell what it does says nothing of files that have canonical forms. -/
theorem join_notes_of_quiet (colour : Bool) (quiet : request.verbose = false)
    (files : List String) : String.join (files.map (request.notes colour store)) = "" := by
  induction files with
  | nil => rfl
  | cons path others inductionHypothesis =>
    rw [List.map_cons, String.join_cons, inductionHypothesis]
    simp [Request.notes, Request.announcement, quiet]

/-- A run on several files is the sequence of the runs on those that it reaches: all of
them, or those in front of the first one without canonical form. If it writes, their
canonical forms with a line feed behind are in these files, and whatever stands at another
place stays; otherwise nothing is changed. What it prints is what the runs on each of them
print. If it reaches all files, it counts those that differ from their canonical form: it
succeeds if there are none, and otherwise fails with a line that gives their number. If it does
not, it fails with a line that names the first file that is refused by a path that leads to it,
and says nothing about files that differ. Only escape sequences are left out of that line where
there is no colour. Nothing else is said unless the run tells what it does. -/
theorem run_eq_sequence {arguments : List String} (colour : Bool)
    (told : sortArguments ⟨[], [], []⟩ arguments = .ok sorted) (noHelp : .help ∉ sorted.flags)
    (admitted : sorted.Admits store options) (apart : (sorted.files.map store.resolve?).Nodup) :
    let request := sorted.requestUnder options
    let reached := request.reached store
    let different := reached.countP (request.counts store)
    let said := String.join (reached.map (request.notes colour store))
    let outcome := run store ("format" :: arguments) colour
    (request.write = true → ∀ path ∈ reached, ∃ form,
        store.canonicalForm options path = .ok form ∧
          outcome.store.entry path = .file (form ++ "\n")) ∧
      (∀ path, store.resolve? path ∉ reached.map store.resolve? →
        outcome.store.entry path = store.entry path) ∧
      (request.write = false → outcome.store = store) ∧
      outcome.output = String.join (reached.map fun path =>
        (run store ("format" :: (sorted.alone path).spelled) colour).output) ∧
      (request.verbose = false →
        said = "" ∧ ∀ path, request.announcement colour store path = "") ∧
      (reached = sorted.files ∧ outcome.status = (if different = 0 then 0 else 1) ∧
          outcome.errors = said ++ (if different = 0 then "" else
            "\n" ++ toString different ++ " file(s) would be reformatted.\n") ∨
        ∃ path behind error line, sorted.files = reached ++ path :: behind ∧
          store.canonicalForm options path = .error error ∧ error ≠ .unprintable .unbalanced ∧
          store.resolve? (normalPath path) = store.resolve? path ∧ outcome.status = 1 ∧
          outcome.errors = said ++ request.announcement colour store path ++ line ++ "\n" ∧
          let refusal := "Error: " ++ normalPath path ++ ": " ++ error.message
          line = (if colour then refusal
            else String.ofList (Comparison.withoutEscapes refusal.toList)) ∧
          ('\x1b' ∉ refusal.toList → line = refusal)) := by
  intro request reached different said outcome
  obtain ⟨next, passes, ended⟩ := Request.run_eq colour admitted.modes apart
    admitted.there
  have ran : outcome = request.run store colour := run_of_told colour told noHelp admitted
  -- Whichever way the run ends, the files and what was printed are those behind the last
  -- file that it reached.
  have left : outcome.store = next.store ∧ outcome.output = next.output := by
    rw [ran]
    rcases ended with ⟨-, run⟩ | ⟨path, behind, error, -, -, run⟩
    · rw [run]
      split <;> exact ⟨rfl, rfl⟩
    · rw [run]
      exact ⟨rfl, rfl⟩
  have counted : next.unformatted = different := by
    rw [passes.unformatted, Nat.zero_add]
  have noted : next.errors = said := by
    rw [passes.errors, String.empty_append]
  refine ⟨?_, ?_, ?_, ?_, ?_, ?_⟩
  · intro write path inside
    obtain ⟨form, accepted⟩ := accepted_of_reached inside
    rw [left.1]
    exact ⟨form, accepted, passes.written write path inside form accepted⟩
  · intro path elsewhere
    rw [left.1]
    refine passes.kept path fun one inside same => elsewhere ?_
    exact List.mem_map.2 ⟨one, inside, same⟩
  · intro noWrite
    rw [left.1]
    exact passes.untouched noWrite
  · rw [left.2, passes.output, String.empty_append, map_output_alone colour noHelp admitted]
  · intro quiet
    exact ⟨join_notes_of_quiet colour quiet reached,
      fun path => by simp [Request.announcement, quiet]⟩
  · rw [ran]
    rcases ended with ⟨all, run⟩ | ⟨path, behind, error, listed, refused, run⟩
    · refine .inl ⟨all, ?_⟩
      rw [run, counted]
      split
      · exact ⟨rfl, by rw [String.append_empty]; exact noted⟩
      · exact ⟨rfl, by rw [← noted, ← echoed_unformatted different colour]; rfl⟩
    · have inside : path ∈ (sorted.requestUnder options).files := by
        rw [listed]
        simp
      obtain ⟨content, isFile⟩ := admitted.there path inside
      refine .inr ⟨path, behind, error, _, listed, refused, formatText_ne_unbalanced refused,
        resolve?_normalPath isFile, ?_, ?_, rfl, fun absent => ?_⟩
      · rw [run]
        rfl
      · rw [run, ← noted]
        simp only [Progress.outcome, echoed, String.append_assoc]
        rfl
      · split
        · rfl
        · rw [Comparison.withoutEscapes_of_not_mem absent, String.ofList_toList]

end Runs

section FourFiles

/-- Two queries out of order, one between them that is cut off, and one in canonical form. -/
def fourFiles : Store :=
  ⟨[(["a"], "\x7b b a \x7d"), (["b"], "\x7b a"), (["c"], "\x7b d c \x7d"),
    (["d"], "query \x7b\n  a\n\x7d\n")], []⟩

theorem entry_fourFiles :
    fourFiles.entry "a" = .file "\x7b b a \x7d" ∧ fourFiles.entry "./b" = .file "\x7b a" ∧
      fourFiles.entry "b" = .file "\x7b a" ∧ fourFiles.entry "c" = .file "\x7b d c \x7d" ∧
      fourFiles.entry "d" = .file "query \x7b\n  a\n\x7d\n" := by
  refine ⟨?_, ?_, ?_, ?_, ?_⟩ <;> cbv

theorem resolve?_fourFiles :
    fourFiles.resolve? "a" = some ["a"] ∧ fourFiles.resolve? "./b" = some ["b"] ∧
      fourFiles.resolve? "b" = some ["b"] ∧ fourFiles.resolve? "c" = some ["c"] ∧
      fourFiles.resolve? "d" = some ["d"] := by
  refine ⟨?_, ?_, ?_, ?_, ?_⟩ <;> cbv

theorem formattedPart_fourFiles :
    formattedPart (fourFiles.content "a") = "\x7b b a \x7d" ∧
      formattedPart (fourFiles.content "c") = "\x7b d c \x7d" ∧
      formattedPart (fourFiles.content "d") = "query \x7b\n  a\n\x7d" := by
  refine ⟨?_, ?_, ?_⟩ <;> cbv

set_option maxRecDepth 4000 in
theorem canonicalForm_fourFiles :
    fourFiles.canonicalForm Options.standard "a" = .ok "query \x7b\n  a\n  b\n\x7d" ∧
      fourFiles.canonicalForm Options.standard "./b" =
        .error (.badSyntax ⟨.grammatical (.expectedName none), "\x7b a".toList, 3⟩) ∧
      fourFiles.canonicalForm Options.standard "c" = .ok "query \x7b\n  c\n  d\n\x7d" ∧
      fourFiles.canonicalForm Options.standard "d" = .ok "query \x7b\n  a\n\x7d" := by
  refine ⟨?_, ?_, ?_, ?_⟩ <;> cbv

/-- What a run of comparisons prints for the two queries out of order. -/
theorem comparisonLines_fourFiles :
    String.join ((comparisonLines "a" "\x7b b a \x7d" "query \x7b\n  a\n  b\n\x7d").map
        (echoed false)) =
      "--- a\n+++ a (formatted)\n@@ -1 +1,4 @@\n" ++
        "-\x7b b a \x7d\n+query \x7b\n+  a\n+  b\n+\x7d\n" ∧
    String.join ((comparisonLines "c" "\x7b d c \x7d" "query \x7b\n  c\n  d\n\x7d").map
        (echoed false)) =
      "--- c\n+++ c (formatted)\n@@ -1 +1,4 @@\n" ++
        "-\x7b d c \x7d\n+query \x7b\n+  c\n+  d\n+\x7d\n" := by
  have displayed :
      Text.displayLines "\x7b b a \x7d" = ["\x7b b a \x7d"] ∧
        Text.displayLines "query \x7b\n  a\n  b\n\x7d" = ["query \x7b", "  a", "  b", "\x7d"] ∧
        Text.displayLines "\x7b d c \x7d" = ["\x7b d c \x7d"] ∧
        Text.displayLines "query \x7b\n  c\n  d\n\x7d" = ["query \x7b", "  c", "  d", "\x7d"] := by
    exact ⟨rfl, rfl, rfl, rfl⟩
  obtain ⟨oldA, newA, oldC, newC⟩ := displayed
  rw [comparisonLines, comparisonLines, oldA, newA, oldC, newC]
  constructor <;> cbv

/-- A run that writes three of the files reaches the first one. -/
theorem writes_fourFiles :
    let sorted : Sorted := ⟨[.write], [], ["a", "./b", "c"]⟩
    sortArguments ⟨[], [], []⟩ ["--write", "a", "./b", "c"] = .ok sorted ∧
      sorted.Admits fourFiles Options.standard ∧
      (sorted.requestUnder Options.standard).reached fourFiles = ["a"] ∧
      (sorted.requestUnder Options.standard).shown false fourFiles "a" = "" := by
  obtain ⟨isA, isB, -, isC, -⟩ := entry_fourFiles
  obtain ⟨formA, errorB, -⟩ := canonicalForm_fourFiles
  refine ⟨by cbv, ⟨rfl, ⟨_, _, rfl, rfl, rfl⟩, by simp, by simp [isA, isB, isC], by simp⟩, ?_,
    shown_of_accepted formA⟩
  simp [Request.reached, Sorted.requestUnder, formA, errorB, Except.isOk, Except.toBool]

/-- Of three files that are compared, all have canonical forms and two are not in them. -/
theorem compared_fourFiles :
    let request := Sorted.requestUnder ⟨[.check], [], ["a", "c", "d"]⟩ Options.standard
    request.reached fourFiles = ["a", "c", "d"] ∧
      ["a", "c", "d"].countP (request.counts fourFiles) = 2 ∧
      ["a", "c", "d"].map (request.shown false fourFiles) =
        ["--- a\n+++ a (formatted)\n@@ -1 +1,4 @@\n" ++
            "-\x7b b a \x7d\n+query \x7b\n+  a\n+  b\n+\x7d\n",
          "--- c\n+++ c (formatted)\n@@ -1 +1,4 @@\n" ++
            "-\x7b d c \x7d\n+query \x7b\n+  c\n+  d\n+\x7d\n", ""] := by
  intro request
  obtain ⟨formA, -, formC, formD⟩ := canonicalForm_fourFiles
  obtain ⟨partA, partC, partD⟩ := formattedPart_fourFiles
  have keeps : request.write = false := by decide
  have checks : request.check = true := by decide
  have shown {path form : String}
      (accepted : fourFiles.canonicalForm request.options path = .ok form) :
      request.shown false fourFiles path =
        if form = formattedPart (fourFiles.content path) then "" else
          String.join ((comparisonLines (normalPath path) (formattedPart (fourFiles.content path))
            form).map (echoed false)) := by
    rw [shown_of_accepted accepted, Request.shownAs, keeps, checks, if_neg Bool.false_ne_true,
      if_pos rfl]
  have counts {path form : String}
      (accepted : fourFiles.canonicalForm request.options path = .ok form) :
      request.counts fourFiles path =
        (true && decide (form ≠ formattedPart (fourFiles.content path))) := by
    rw [counts_of_accepted accepted, checks]
  refine ⟨?_, ?_, ?_⟩
  · simp [Request.reached, request, Sorted.requestUnder, formA, formC, formD, Except.isOk,
      Except.toBool]
  · rw [List.countP_cons, List.countP_cons, List.countP_singleton, counts formA, counts formC,
      counts formD, partA, partC, partD]
    decide
  · rw [List.map_cons, List.map_cons, List.map_singleton, shown formA, shown formC, shown formD,
      partA, partC, partD, if_neg (by decide), if_neg (by decide), if_pos rfl,
      show normalPath "a" = "a" by cbv, show normalPath "c" = "c" by cbv,
      comparisonLines_fourFiles.1, comparisonLines_fourFiles.2]

/-- The run that compares these three can be carried out. -/
theorem compares_fourFiles :
    sortArguments ⟨[], [], []⟩ ["--check", "a", "c", "d"] =
        .ok ⟨[.check], [], ["a", "c", "d"]⟩ ∧
      Sorted.Admits ⟨[.check], [], ["a", "c", "d"]⟩ fourFiles Options.standard := by
  obtain ⟨isA, -, -, isC, isD⟩ := entry_fourFiles
  exact ⟨by cbv, rfl, ⟨_, _, rfl, rfl, rfl⟩, by simp, by simp [isA, isC, isD], by simp⟩

/-- The second file is refused: the first one is written, the third one stays, and the message
names the second one. Where it is left out, two of three files are not as they should be. -/
theorem run_eq_sequence_fourFiles :
    let written := run fourFiles ["format", "--write", "a", "./b", "c"] false
    let compared := run fourFiles ["format", "--check", "a", "c", "d"] false
    (written.store.entry "a" = .file "query \x7b\n  a\n  b\n\x7d\n" ∧
        written.store.entry "b" = .file "\x7b a" ∧
        written.store.entry "c" = .file "\x7b d c \x7d" ∧
        written.output = "" ∧ written.status = 1 ∧
        written.errors = "Error: b: Syntax Error: Expected Name, found <EOF>.\n\n" ++
          "GraphQL request:1:4\n1 | \x7b a\n  |    ^\n") ∧
      compared.store = fourFiles ∧
        compared.output = "--- a\n+++ a (formatted)\n@@ -1 +1,4 @@\n" ++
          "-\x7b b a \x7d\n+query \x7b\n+  a\n+  b\n+\x7d\n" ++
          "--- c\n+++ c (formatted)\n@@ -1 +1,4 @@\n" ++
          "-\x7b d c \x7d\n+query \x7b\n+  c\n+  d\n+\x7d\n" ∧
        compared.status = 1 ∧ compared.errors = "\n2 file(s) would be reformatted.\n" := by
  obtain ⟨-, -, isB, isC, -⟩ := entry_fourFiles
  obtain ⟨atA, atGivenB, atB, atC, atD⟩ := resolve?_fourFiles
  constructor
  · obtain ⟨told, admitted, reached, shown⟩ := writes_fourFiles
    obtain ⟨formA, errorB, -⟩ := canonicalForm_fourFiles
    obtain ⟨wrote, kept, -, output, quiet, ended⟩ :=
      run_eq_sequence false told (by simp) admitted (by simp [atA, atGivenB, atC])
    rw [map_output_alone false (by simp) admitted] at output
    rw [reached] at wrote kept output quiet ended
    obtain ⟨form, accepted, stored⟩ := wrote rfl "a" List.mem_cons_self
    obtain rfl := Except.ok.inj (formA.symm.trans accepted)
    rcases ended with ⟨all, -⟩ | ⟨path, behind, error, line, listed, refused, -, -, status, errors,
      -, plain⟩
    · cases all
    · obtain ⟨rfl, -⟩ : path = "./b" ∧ behind = ["c"] := by simpa [eq_comm] using listed
      obtain rfl := Except.error.inj (errorB.symm.trans refused)
      have refusal : "Error: " ++ normalPath "./b" ++ ": " ++ FormatError.message
          (.badSyntax ⟨.grammatical (.expectedName none), "\x7b a".toList, 3⟩) =
            "Error: b: Syntax Error: Expected Name, found <EOF>.\n\n" ++
              "GraphQL request:1:4\n1 | \x7b a\n  |    ^" := by
        rfl
      rw [refusal] at plain
      obtain ⟨silent, unannounced⟩ := quiet rfl
      rw [silent, unannounced, plain (by decide)] at errors
      rw [List.map_singleton, shown] at output
      exact ⟨stored, (kept "b" (by simp [atA, atB])).trans isB,
        (kept "c" (by simp [atA, atC])).trans isC, output, status, errors⟩
  · obtain ⟨told, admitted⟩ := compares_fourFiles
    obtain ⟨reached, different, shown⟩ := compared_fourFiles
    obtain ⟨-, -, unchanged, output, quiet, ended⟩ :=
      run_eq_sequence false told (by simp) admitted (by simp [atA, atC, atD])
    rw [map_output_alone false (by simp) admitted, reached, shown] at output
    rw [reached] at quiet ended
    rcases ended with ⟨-, status, errors⟩ | ⟨path, behind, error, line, listed, -⟩
    · rw [different] at status errors
      rw [(quiet rfl).1] at errors
      exact ⟨unchanged rfl, output, status, errors⟩
    · simp at listed

end FourFiles

end GraphQLCanon.CommandLine
