import GraphQLCanon.Proofs.ArgumentSorting
import GraphQLCanon.Proofs.Reclassification
import GraphQLCanon.Proofs.StoreWriting
import GraphQLCanon.Proofs.Trimming
import GraphQLCanon.Proofs.Visits

/-!
# Checking what was written

A run that writes leaves in each of its files a canonical form and a line break. A run
that checks these files reads the canonical forms again: it finds nothing to reformat, and
it prints and changes nothing. It fails only where a canonical form is classified otherwise
than the text that it was made of, since the other parser refuses it.

Two paths may lead to one file, so a file may be written several times in a run. What is
written later is the canonical form of a canonical form, which is the same text.
-/

namespace GraphQLCanon.CommandLine

variable {options : Options}

/-- What is written back to a file is read as the canonical form again. -/
theorem formattedPart_written {text result : String}
    (formatted : formatText text options = .ok result) :
    formattedPart (result ++ "\n") = result := by
  obtain ⟨stripped, returnless⟩ := plain_of_formatText formatted
  have unified : Text.unifyBreaks (result ++ "\n").toList = (result ++ "\n").toList :=
    Text.unifyBreaks_of_returnless _ (by simpa using returnless)
  rw [formattedPart, unified, String.ofList_toList]
  have blank : ∀ character ∈ "\n".toList, Text.isBlank character = true := by
    intro character inside
    rw [List.mem_singleton.1 inside]
    rfl
  simpa [stripped] using Text.strip_around "" result "\n" (by simp) blank

section Rewriting

/-- A file with its canonical form written over it. -/
def Rewritten (options : Options) (before after : Store) (path : String) : Prop :=
  ∃ content result, before.entry path = .file content ∧
    formatText (formattedPart content) options = .ok result ∧
    after.entry path = .file (result ++ "\n")

/-- Every file is as it was or rewritten. -/
def Rewrites (options : Options) (before after : Store) : Prop :=
  ∀ path content, before.entry path = .file content →
    after.entry path = .file content ∨ Rewritten options before after path

variable {before middle after : Store} {path content result : String}

theorem Rewrites.refl (store : Store) : Rewrites options store store := by
  intro path content found
  exact .inl found

/-- What was rewritten stays so: the canonical form that is written later is the same. -/
theorem Rewritten.trans (first : Rewritten options before middle path)
    (second : Rewrites options middle after) : Rewritten options before after path := by
  obtain ⟨content, result, found, formatted, written⟩ := first
  rcases second path _ written with same | ⟨again, form, reread, reformatted, rewritten⟩
  · exact ⟨content, result, found, formatted, same⟩
  · obtain rfl := Entry.file.inj (written.symm.trans reread)
    rw [formattedPart_written formatted] at reformatted
    rw [eq_of_formatText_result formatted reformatted] at rewritten
    exact ⟨content, result, found, formatted, rewritten⟩

/-- What is rewritten later was there before. -/
theorem Rewrites.rewritten (first : Rewrites options before middle)
    (found : before.entry path = .file content) (second : Rewritten options middle after path)
    (others : Rewrites options middle after) : Rewritten options before after path := by
  rcases first path content found with same | rewritten
  · obtain ⟨again, result, reread, formatted, written⟩ := second
    obtain rfl := Entry.file.inj (same.symm.trans reread)
    exact ⟨content, result, found, formatted, written⟩
  · exact rewritten.trans others

theorem Rewrites.trans (first : Rewrites options before middle)
    (second : Rewrites options middle after) : Rewrites options before after := by
  intro path content found
  rcases first path content found with same | rewritten
  · rcases second path content same with kept | rewritten
    · exact .inl kept
    · exact .inr (first.rewritten found rewritten second)
  · exact .inr (rewritten.trans second)

/-- Files are still there after they were rewritten. -/
theorem Rewrites.there (rewrites : Rewrites options before after)
    (found : before.entry path = .file content) : ∃ content, after.entry path = .file content := by
  rcases rewrites path content found with same | ⟨-, result, -, -, written⟩
  · exact ⟨content, same⟩
  · exact ⟨result ++ "\n", written⟩

/-- Writing one canonical form rewrites its file and leaves the others. -/
theorem rewrites_write (found : before.entry path = .file content)
    (formatted : formatText (formattedPart content) options = .ok result) :
    Rewrites options before (before.write path (result ++ "\n")) ∧
      Rewritten options before (before.write path (result ++ "\n")) path := by
  constructor
  · intro other there entered
    rcases Store.entry_write_or (result ++ "\n") found entered with same | ⟨rfl, written⟩
    · exact .inl same
    · exact .inr ⟨there, result, entered, formatted, written⟩
  · exact ⟨content, result, found, formatted, Store.entry_write _ found⟩

end Rewriting

section Writing

variable {request : Request} {colour : Bool} {path content : String} {progress next : Progress}

/-- A visit that writes puts the canonical form of the file into it. -/
theorem visit_write (write : request.write = true)
    (found : progress.store.entry path = .file content)
    (visited : progress.visit request colour path = .ok next) :
    ∃ result, formatText (formattedPart content) request.options = .ok result ∧
      next.store = progress.store.write path (result ++ "\n") := by
  have read : progress.store.canonicalForm request.options path =
      formatText (formattedPart content) request.options := by
    rw [Store.canonicalForm, Store.content, found]
  rw [visit_eq, read] at visited
  cases formatted : formatText (formattedPart content) request.options with
  | error error =>
    rw [formatted] at visited
    cases visited
  | ok result =>
    rw [formatted, Progress.conclude, if_pos write] at visited
    obtain rfl := Except.ok.inj visited
    refine ⟨result, rfl, ?_⟩
    unfold Progress.writeBack Progress.warn
    split <;> rfl

/-- A run that writes rewrites all of its files, and no other one. -/
theorem visitAll_write (write : request.write = true) {files : List String}
    (there : ∀ path ∈ files, ∃ content, progress.store.entry path = .file content)
    (visited : progress.visitAll request colour files = .ok next) :
    Rewrites request.options progress.store next.store ∧
      ∀ path ∈ files, Rewritten request.options progress.store next.store path := by
  induction files generalizing progress with
  | nil =>
    obtain rfl := Except.ok.inj visited
    exact ⟨.refl _, by simp⟩
  | cons path others inductionHypothesis =>
    rw [List.forall_mem_cons] at there
    obtain ⟨⟨content, found⟩, there⟩ := there
    rw [Progress.visitAll] at visited
    obtain ⟨middle, first, visited⟩ := except_bind_eq_ok_iff.1 visited
    obtain ⟨result, formatted, stored⟩ := visit_write write found first
    obtain ⟨step, own⟩ := rewrites_write found formatted
    rw [← stored] at step own
    have still : ∀ other ∈ others, ∃ content, middle.store.entry other = .file content := by
      intro other inside
      obtain ⟨before, entered⟩ := there other inside
      exact step.there entered
    obtain ⟨rest, each⟩ := inductionHypothesis still visited
    refine ⟨step.trans rest, ?_⟩
    rw [List.forall_mem_cons]
    refine ⟨own.trans rest, ?_⟩
    intro other inside
    obtain ⟨before, entered⟩ := there other inside
    exact step.rewritten entered (each other inside) rest

end Writing

section Checking

/-- A run that went on without printing or changing anything, and without a file that
differs from its canonical form. -/
structure Progress.Quiet (progress next : Progress) : Prop where
  store : next.store = progress.store
  output : next.output = progress.output
  unformatted : next.unformatted = progress.unformatted

variable {progress middle next : Progress}

theorem Progress.Quiet.trans (first : progress.Quiet middle) (second : middle.Quiet next) :
    progress.Quiet next where
  store := second.store.trans first.store
  output := second.output.trans first.output
  unformatted := second.unformatted.trans first.unformatted

variable {request : Request} {path : String} {files : List String} (colour : Bool)

/-- A text that is its own canonical form. -/
def Settled (options : Options) (text : String) : Prop :=
  formatText text options = .ok text

instance (options : Options) (text : String) : Decidable (Settled options text) :=
  inferInstanceAs (Decidable (formatText text options = .ok text))

/-- A visit that checks a canonical form is quiet. -/
theorem visit_check_of_settled (write : request.write = false) (check : request.check = true)
    (settled : Settled request.options (formattedPart (progress.store.content path))) :
    ∃ next, progress.visit request colour path = .ok next ∧ progress.Quiet next := by
  have accepted : progress.store.canonicalForm request.options path =
      .ok (formattedPart (progress.store.content path)) := settled
  refine ⟨_, visit_accepted colour (by simp [write]) accepted, ?_, ?_, ?_⟩
  · simp [write]
  · simp [shown_of_accepted accepted, Request.shownAs, write, check]
  · simp [counts_of_accepted accepted]

/-- A visit to a text without canonical form fails, and prints its message on the stream of
errors only. -/
theorem visit_of_refused {error : FormatError}
    (refused : formatText (formattedPart (progress.store.content path)) request.options =
      .error error) :
    ∃ next, progress.visit request colour path = .error next ∧ progress.Quiet next :=
  ⟨_, visit_refused colour refused, rfl, rfl, rfl⟩

/-- A run that checks texts which are their own canonical forms or have none is quiet. It
fails when one of them has none. -/
theorem visitAll_check (progress : Progress) (write : request.write = false)
    (check : request.check = true)
    (each : ∀ path ∈ files, Settled request.options (formattedPart (progress.store.content path)) ∨
      ∃ error, formatText (formattedPart (progress.store.content path)) request.options =
        .error error) :
    ∃ next, progress.Quiet next ∧ progress.visitAll request colour files =
      if ∀ path ∈ files, Settled request.options (formattedPart (progress.store.content path))
      then .ok next else .error next := by
  induction files generalizing progress with
  | nil => exact ⟨progress, ⟨rfl, rfl, rfl⟩, by simp [Progress.visitAll]⟩
  | cons path others inductionHypothesis =>
    simp only [List.forall_mem_cons] at each ⊢
    rw [Progress.visitAll]
    rcases each with ⟨settled | ⟨error, refused⟩, each⟩
    · obtain ⟨middle, visited, quiet⟩ := visit_check_of_settled colour write check settled
      rw [← quiet.store] at each
      obtain ⟨next, still, outcome⟩ := inductionHypothesis middle each
      rw [quiet.store] at outcome
      refine ⟨next, quiet.trans still, ?_⟩
      simpa [visited, settled, bind, Except.bind] using outcome
    · obtain ⟨failed, visited, quiet⟩ := visit_of_refused colour refused
      have unsettled : ¬Settled request.options (formattedPart (progress.store.content path)) := by
        rw [Settled, refused]
        rintro ⟨⟩
      exact ⟨failed, quiet, by simp [visited, unsettled, bind, Except.bind]⟩

end Checking

section Runs

/-- What was rewritten is its own canonical form when it is classified as before, and is
refused otherwise. -/
theorem Rewritten.settled {before after : Store} {path : String}
    (rewritten : Rewritten options before after path) :
    (Settled options (formattedPart (after.content path)) ↔
        isSchema (formattedPart (after.content path)) =
          isSchema (formattedPart (before.content path))) ∧
      (Settled options (formattedPart (after.content path)) ∨
        ∃ error, formatText (formattedPart (after.content path)) options = .error error) := by
  obtain ⟨content, result, found, formatted, written⟩ := rewritten
  have source : before.content path = content := by
    rw [Store.content, found]
  have target : formattedPart (after.content path) = result := by
    rw [Store.content, written]
    exact formattedPart_written formatted
  rw [source, target]
  refine ⟨formatText_result_iff formatted, ?_⟩
  by_cases same : isSchema result = isSchema (formattedPart content)
  · exact .inl (formatText_result_of_same formatted same)
  · obtain ⟨construct, refused⟩ := formatText_result_of_other formatted same
    exact .inr ⟨_, refused⟩

variable {store : Store} {request : Request} {colour : Bool}

/-- A run that writes and succeeds rewrites all of its files, and no other one. -/
theorem rewritten_of_run (write : request.write = true)
    (there : ∀ path ∈ request.files, ∃ content, store.entry path = .file content)
    (succeeded : (request.run store colour).status = 0) :
    Rewrites request.options store (request.run store colour).store ∧
      ∀ path ∈ request.files,
        Rewritten request.options store (request.run store colour).store path := by
  unfold Request.run at succeeded ⊢
  cases visited : Progress.visitAll ⟨store, "", "", 0⟩ request colour request.files with
  | error failed => simp [visited, Progress.outcome] at succeeded
  | ok next =>
    rw [visited] at succeeded
    by_cases none : next.unformatted = 0
    · simpa [none, Progress.outcome] using visitAll_write write there visited
    · simp [none, Progress.outcome] at succeeded

/-- A run that checks texts which are their own canonical forms or have none prints no
comparison and changes nothing. It fails when one of them has none. -/
theorem run_check (write : request.write = false) (check : request.check = true)
    (each : ∀ path ∈ request.files, Settled request.options (formattedPart (store.content path)) ∨
      ∃ error, formatText (formattedPart (store.content path)) request.options = .error error) :
    (request.run store colour).output = "" ∧ (request.run store colour).store = store ∧
      (request.run store colour).status =
        if ∀ path ∈ request.files, Settled request.options (formattedPart (store.content path))
        then 0 else 1 := by
  obtain ⟨next, quiet, visited⟩ := visitAll_check colour ⟨store, "", "", 0⟩ write check each
  unfold Request.run
  rw [visited]
  by_cases settled :
      ∀ path ∈ request.files, Settled request.options (formattedPart (store.content path))
  · rw [if_pos settled, if_pos settled]
    simp [quiet.unformatted, Progress.outcome, quiet.output, quiet.store]
  · rw [if_neg settled, if_neg settled]
    simp [Progress.outcome, quiet.output, quiet.store]

/-- A run that checks rewritten files prints no comparison and changes nothing. It fails
when one of them is classified otherwise than before. -/
theorem run_check_of_rewritten {before : Store} (write : request.write = false)
    (check : request.check = true)
    (rewritten : ∀ path ∈ request.files, Rewritten request.options before store path) :
    (request.run store colour).output = "" ∧ (request.run store colour).store = store ∧
      (request.run store colour).status =
        if ∀ path ∈ request.files, isSchema (formattedPart (store.content path)) =
          isSchema (formattedPart (before.content path))
        then 0 else 1 := by
  obtain ⟨output, kept, status⟩ := run_check write check fun path inside =>
    (rewritten path inside).settled.2
  refine ⟨output, kept, status.trans (if_congr ?_ rfl rfl)⟩
  exact forall₂_congr fun path inside => (rewritten path inside).settled.1

/-- Where a run that writes succeeds, a run that checks the same files at the same widths
prints no comparison and changes no file. It succeeds exactly when every file is classified
as it was before it was written; otherwise its status is one. For the same reason a
canonical form is its own canonical form exactly when it is classified as its source, and
is refused as a construct that does not belong in it otherwise. -/
theorem run_check_of_run_write :
    (∀ (store : Store) (rest : List String) (sorted : Sorted) (colour colour' : Bool),
      sortArguments ⟨[], [], []⟩ rest = .ok sorted →
      (∀ flag ∈ sorted.flags, flag = .verbose) →
      (run store ("format" :: "--write" :: rest) colour).status = 0 →
      let after := (run store ("format" :: "--write" :: rest) colour).store
      let checked := run after ("format" :: "--check" :: rest) colour'
      checked.output = "" ∧ checked.store = after ∧
        checked.status =
          if ∀ path ∈ sorted.files, isSchema (formattedPart (after.content path)) =
            isSchema (formattedPart (store.content path))
          then 0 else 1) ∧
    ∀ (text result : String) (options : Options), formatText text options = .ok result →
      (formatText result options = .ok result ↔ isSchema result = isSchema text) ∧
      (isSchema result ≠ isSchema text →
        ∃ construct, formatText result options = .error (.unprintable (.unsupported construct))) := by
  refine ⟨?_, fun text result options formatted =>
    ⟨formatText_result_iff formatted, formatText_result_of_other formatted⟩⟩
  intro store rest sorted colour colour' told plain succeeded
  have noWrite : .write ∉ (sorted.flagged .check).flags := by
    rintro (_ | ⟨_, write⟩)
    cases plain _ write
  have noHelp (flag : Flag) (other : flag ≠ .help) : .help ∉ (sorted.flagged flag).flags := by
    rintro (_ | ⟨_, help⟩)
    · exact other rfl
    · cases plain _ help
  have toWrite := noHelp .write (by decide)
  obtain ⟨options, admitted⟩ := admits_of_run (told_flag .write told) toWrite succeeded
  have wrote := run_of_told colour (told_flag .write told) toWrite admitted
  rw [Flag.long] at wrote
  rw [wrote] at succeeded ⊢
  obtain ⟨rewrites, each⟩ :=
    rewritten_of_run (by simp [Sorted.requestUnder, Sorted.flagged]) admitted.there succeeded
  generalize (((sorted.flagged .write).requestUnder options).run store colour).store = after
    at rewrites each ⊢
  have there : ∀ path ∈ sorted.files, ∃ content, after.entry path = .file content := by
    intro path inside
    obtain ⟨content, found⟩ := admitted.there path inside
    exact rewrites.there found
  have toCheck := noHelp .check (by decide)
  have checked := run_of_told colour' (told_flag .check told) toCheck (admitted.check plain there)
  rw [Flag.long] at checked
  dsimp only
  rw [checked]
  exact run_check_of_rewritten (by simpa [Sorted.requestUnder] using noWrite)
    (by simp [Sorted.requestUnder, Sorted.flagged]) each

set_option maxRecDepth 4000 in
/-- A query is checked after it was written, and stays a query. -/
theorem run_check_of_run_write_query :
    let store := Store.ofFiles [("a", "\x7b b a \x7d")]
    let written := run store ["format", "--write", "--indent=4", "a"] false
    written.status = 0 ∧
      (run written.store ["format", "--check", "--indent=4", "a"] false).status = 0 ∧
      formatText "query \x7b\n  a\n  b\n\x7d" Options.standard =
        .ok "query \x7b\n  a\n  b\n\x7d" := by
  have told : sortArguments ⟨[], [], []⟩ ["--indent=4", "a"] =
      .ok ⟨[], [(.indent, "4")], ["a"]⟩ := by
    cbv
  have toWrite : sortArguments ⟨[], [], []⟩ ["--write", "--indent=4", "a"] =
      .ok ⟨[.write], [(.indent, "4")], ["a"]⟩ := told_flag .write told
  have writes : Sorted.request ⟨[.write], [(.indent, "4")], ["a"]⟩
      (Store.ofFiles [("a", "\x7b b a \x7d")]) =
        .ok ⟨["a"], true, false, false, ⟨4, 80, false, by decide⟩⟩ := by
    cbv
  have wrote : Request.run ⟨["a"], true, false, false, ⟨4, 80, false, by decide⟩⟩
      (Store.ofFiles [("a", "\x7b b a \x7d")]) false =
        ⟨0, "", "", ⟨[(["a"], "query \x7b\n    a\n    b\n\x7d\n")], []⟩⟩ := by
    cbv
  have written : run (Store.ofFiles [("a", "\x7b b a \x7d")])
      ["format", "--write", "--indent=4", "a"] false =
        ⟨0, "", "", ⟨[(["a"], "query \x7b\n    a\n    b\n\x7d\n")], []⟩⟩ := by
    rw [run_told _ false toWrite (by decide), writes]
    exact wrote
  have formatted : formatText "\x7b b a \x7d" Options.standard =
      .ok "query \x7b\n  a\n  b\n\x7d" := by
    cbv
  have checked := run_check_of_run_write.1 _ _ _ false false told (by simp)
    (congrArg Outcome.status written)
  rw [written] at checked
  dsimp only
  rw [written]
  refine ⟨rfl, checked.2.2.trans (if_pos ?_),
    (run_check_of_run_write.2 _ _ _ formatted).1.2 (by cbv)⟩
  intro path inside
  rw [List.mem_singleton.1 inside]
  cbv

/-- The name of a field begins a line of a text that is formatted as a schema. It is
indented in the canonical form, which is then taken for a query and refused. -/
theorem run_check_of_run_write_unindented :
    let store := Store.ofFiles [("a", "type A \x7b\nschema: Int\n\x7d\n")]
    let written := run store ["format", "--write", "a"] false
    written.status = 0 ∧ (run written.store ["format", "--check", "a"] false).status = 1 := by
  have toWrite : sortArguments ⟨[], [], []⟩ ["--write", "a"] = .ok ⟨[.write], [], ["a"]⟩ := by
    cbv
  have toCheck : sortArguments ⟨[], [], []⟩ ["--check", "a"] = .ok ⟨[.check], [], ["a"]⟩ := by
    cbv
  have writes : Sorted.request ⟨[.write], [], ["a"]⟩
      (Store.ofFiles [("a", "type A \x7b\nschema: Int\n\x7d\n")]) =
        .ok ⟨["a"], true, false, false, Options.standard⟩ := by
    cbv
  have checks : Sorted.request ⟨[.check], [], ["a"]⟩
      ⟨[(["a"], "type A \x7b\n  schema: Int\n\x7d\n")], []⟩ =
        .ok ⟨["a"], false, true, false, Options.standard⟩ := by
    cbv
  have wrote : Request.run ⟨["a"], true, false, false, Options.standard⟩
      (Store.ofFiles [("a", "type A \x7b\nschema: Int\n\x7d\n")]) false =
        ⟨0, "", "", ⟨[(["a"], "type A \x7b\n  schema: Int\n\x7d\n")], []⟩⟩ := by
    cbv
  have written : run (Store.ofFiles [("a", "type A \x7b\nschema: Int\n\x7d\n")])
      ["format", "--write", "a"] false =
        ⟨0, "", "", ⟨[(["a"], "type A \x7b\n  schema: Int\n\x7d\n")], []⟩⟩ := by
    rw [run_told _ false toWrite (by decide), writes]
    exact wrote
  have part : formattedPart (Store.content
      ⟨[(["a"], "type A \x7b\n  schema: Int\n\x7d\n")], []⟩ "a") =
        "type A \x7b\n  schema: Int\n\x7d" := by
    cbv
  have refused : formatText "type A \x7b\n  schema: Int\n\x7d" Options.standard =
      .error (.unprintable (.unsupported (.inQueryDocument "object type definition \"A\""))) := by
    cbv
  dsimp only
  rw [written]
  refine ⟨rfl, ?_⟩
  rw [run_told _ false toCheck (by decide), checks]
  refine (run_check rfl rfl ?_).2.2.trans (if_neg ?_)
  · simp [part, refused]
  · simp [part, refused, Settled]

end Runs

end GraphQLCanon.CommandLine
