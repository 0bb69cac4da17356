import GraphQLCanon.CommandLine.Run
import GraphQLCanon.Proofs.Itemwise

/-!
# Arguments behind a flag

A flag in front of other arguments is one flag more among those that they hold. So the
same files and widths are asked for behind `--write` and behind `--check`, and the two
requests differ in what is done with the result only.
-/

namespace GraphQLCanon.CommandLine

/-- Arguments that were told apart, behind others. -/
def Sorted.behind (front sorted : Sorted) : Sorted :=
  ⟨front.flags ++ sorted.flags, front.widths ++ sorted.widths, front.files ++ sorted.files⟩

/-- What was told apart before stays in front. -/
theorem sortArguments_behind (front sorted : Sorted) (arguments : List String) :
    sortArguments (front.behind sorted) arguments =
      (sortArguments sorted arguments).map front.behind := by
  fun_induction sortArguments sorted arguments with
  | case1 => rfl
  | case2 => simp [sortArguments, Sorted.behind, Except.map]
  | case3 sorted argument others notEnd option name width found value split inductionHypothesis =>
    rw [sortArguments, if_neg notEnd, if_pos option, ← inductionHypothesis]
    simp [split, found, Sorted.behind]
  | case4 sorted argument notEnd option name width found value behind split inductionHypothesis =>
    rw [sortArguments, if_neg notEnd, if_pos option, ← inductionHypothesis]
    simp [split, found, Sorted.behind]
  | case5 sorted argument notEnd option name width found split =>
    rw [sortArguments, if_neg notEnd, if_pos option]
    simp [split, found, Except.map]
  | case6 sorted argument others notEnd option name value? split flag found noWidth given =>
    rw [sortArguments, if_neg notEnd, if_pos option]
    simp [split, found, noWidth, given, Except.map]
  | case7 sorted argument others notEnd option name value? split flag found noWidth none
      inductionHypothesis =>
    rw [sortArguments, if_neg notEnd, if_pos option, ← inductionHypothesis]
    simp [split, found, noWidth, none, Sorted.behind]
  | case8 sorted argument others notEnd option name value? split noFlag noWidth
      inductionHypothesis =>
    -- Joined short flags are read first; they are refused in front of nothing as well.
    rw [sortArguments, if_neg notEnd, if_pos option]
    cases told : otherOption argument name with
    | error error => simp [split, noFlag, noWidth, told, bind, Except.bind, Except.map]
    | ok flags =>
      have behind := inductionHypothesis flags
      simp only [Sorted.behind, ← List.append_assoc] at behind
      simpa [split, noFlag, noWidth, told, bind, Except.bind, Sorted.behind] using behind
  | case9 sorted argument others notEnd noOption inductionHypothesis =>
    rw [sortArguments, if_neg notEnd, if_neg noOption, ← inductionHypothesis]
    simp [Sorted.behind]

/-- Arguments that were told apart, behind one flag. -/
def Sorted.flagged (flag : Flag) (sorted : Sorted) : Sorted :=
  { sorted with flags := flag :: sorted.flags }

/-- A flag in front is told apart as a flag. -/
theorem sortArguments_flag (flag : Flag) (arguments : List String) :
    sortArguments ⟨[], [], []⟩ (flag.long :: arguments) =
      (sortArguments ⟨[], [], []⟩ arguments).map (Sorted.flagged flag) := by
  have opened : sortArguments ⟨[], [], []⟩ (flag.long :: arguments) =
      sortArguments (Sorted.behind ⟨[flag], [], []⟩ ⟨[], [], []⟩) arguments := by
    cases flag <;> rfl
  rw [opened, sortArguments_behind]
  rfl

/-- Arguments behind a flag are told apart as the flag and what they are themselves. -/
theorem told_flag (flag : Flag) {sorted : Sorted} {arguments : List String}
    (told : sortArguments ⟨[], [], []⟩ arguments = .ok sorted) :
    sortArguments ⟨[], [], []⟩ (flag.long :: arguments) = .ok (sorted.flagged flag) := by
  rw [sortArguments_flag, told]
  rfl

/-- Behind the name of the command, a run does what the other arguments request unless they ask
for help. -/
theorem run_told (store : Store) (colour : Bool) {sorted : Sorted} {arguments : List String}
    (told : sortArguments ⟨[], [], []⟩ arguments = .ok sorted) (noHelp : .help ∉ sorted.flags) :
    run store ("format" :: arguments) colour =
      match sorted.request store with
      | .error error => ⟨2, "", echoed colour error.write, store⟩
      | .ok request => request.run store colour := by
  have opened : Task.ofArguments store ("format" :: arguments) = formatTask store arguments := rfl
  unfold run
  rw [opened, formatTask, told]
  cases asked : sorted.request store <;>
    simp [noHelp, asked, bind, Except.bind, pure, Except.pure]

variable {sorted : Sorted} {store other : Store} {request : Request}

/-- File arguments pass when all of them lead to files. -/
theorem forM_checkFile_eq_ok {files : List String} :
    files.forM (checkFile store) = .ok () ↔
      ∀ path ∈ files, ∃ content, store.entry path = .file content := by
  induction files with
  | nil => simp [pure, Except.pure]
  | cons path others inductionHypothesis =>
    rw [List.forall_mem_cons, ← inductionHypothesis, List.forM_eq_forM, List.forM_cons,
      ← List.forM_eq_forM, checkFile]
    cases store.entry path <;> simp [bind, Except.bind]

/-- Arguments that can be carried out on some files, under the options that their widths
set. -/
structure Sorted.Admits (sorted : Sorted) (store : Store) (options : Options) : Prop where
  checked : sorted.checkWidths = .ok ()
  widths : ∃ indent maxWidth, sorted.width .indent = .ok indent ∧
    sorted.width .maxWidth = .ok maxWidth ∧
      options = ⟨indent, maxWidth, false, maxWidth.property⟩
  nonempty : sorted.files ≠ []
  there : ∀ path ∈ sorted.files, ∃ content, store.entry path = .file content
  single : ¬(.write ∈ sorted.flags ∧ .check ∈ sorted.flags)

/-- The request for all of the files, with the flags that were given. -/
def Sorted.requestUnder (sorted : Sorted) (options : Options) : Request :=
  ⟨sorted.files, sorted.flags.contains .write, sorted.flags.contains .check,
    sorted.flags.contains .verbose, options⟩

/-- Arguments that can be carried out ask for all of their files. -/
theorem request_eq_ok :
    sorted.request store = .ok request ↔
      ∃ options, sorted.Admits store options ∧ request = sorted.requestUnder options := by
  unfold Sorted.request
  constructor
  · intro asked
    obtain ⟨_, checked, asked⟩ := except_bind_eq_ok_iff.1 asked
    obtain ⟨indent, indented, asked⟩ := except_bind_eq_ok_iff.1 asked
    obtain ⟨maxWidth, widened, asked⟩ := except_bind_eq_ok_iff.1 asked
    by_cases nonempty : sorted.files = []
    · simp [nonempty, bind, Except.bind] at asked
    simp only [List.isEmpty_iff, if_neg nonempty] at asked
    obtain ⟨_, there, asked⟩ := except_bind_eq_ok_iff.1 asked
    by_cases single : .write ∈ sorted.flags ∧ .check ∈ sorted.flags
    · simp [single, bind, Except.bind] at asked
    · refine ⟨_, ⟨checked, ⟨indent, maxWidth, indented, widened, rfl⟩, nonempty,
        forM_checkFile_eq_ok.1 there, single⟩, ?_⟩
      simp [single, pure, Except.pure] at asked
      simpa [Sorted.requestUnder] using asked.symm
  · rintro ⟨options, ⟨checked, ⟨indent, maxWidth, indented, widened, rfl⟩, nonempty, there,
      single⟩, rfl⟩
    have passed := forM_checkFile_eq_ok.2 there
    simp [checked, indented, widened, nonempty, passed, single, bind, Except.bind, pure,
      Except.pure, Sorted.requestUnder]

/-- A run does what its arguments ask for, if they can be carried out. -/
theorem run_of_told {arguments : List String} {options : Options} (colour : Bool)
    (told : sortArguments ⟨[], [], []⟩ arguments = .ok sorted) (noHelp : .help ∉ sorted.flags)
    (admitted : sorted.Admits store options) :
    run store ("format" :: arguments) colour =
      (sorted.requestUnder options).run store colour := by
  rw [run_told store colour told noHelp, request_eq_ok.2 ⟨options, admitted, rfl⟩]

/-- A run succeeds only where its arguments can be carried out. -/
theorem admits_of_run {arguments : List String} {colour : Bool}
    (told : sortArguments ⟨[], [], []⟩ arguments = .ok sorted) (noHelp : .help ∉ sorted.flags)
    (succeeded : (run store ("format" :: arguments) colour).status = 0) :
    ∃ options, sorted.Admits store options := by
  rw [run_told store colour told noHelp] at succeeded
  cases asked : sorted.request store with
  | error error =>
    rw [asked] at succeeded
    cases succeeded
  | ok request =>
    obtain ⟨options, admitted, -⟩ := request_eq_ok.1 asked
    exact ⟨options, admitted⟩

/-- Where arguments can be carried out by writing, they can be carried out by checking on
all stores with the same files. -/
theorem Sorted.Admits.check {options : Options} (plain : ∀ flag ∈ sorted.flags, flag = .verbose)
    (admitted : (sorted.flagged .write).Admits store options)
    (there : ∀ path ∈ sorted.files, ∃ content, other.entry path = .file content) :
    (sorted.flagged .check).Admits other options where
  checked := admitted.checked
  widths := admitted.widths
  nonempty := admitted.nonempty
  there := there
  single := by
    rintro ⟨write, -⟩
    rcases List.mem_cons.1 write with write | write
    · cases write
    · cases plain _ write

end GraphQLCanon.CommandLine
