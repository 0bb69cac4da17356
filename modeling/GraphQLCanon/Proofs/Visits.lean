import Mathlib.Control.Monad.Basic
import GraphQLCanon.CommandLine.Run

/-!
# Visits to single files

What a run does with one of its files is decided by the canonical form of that file, or by the
reason that it has none: the form is written back, compared with the file or printed, or the
reason is told. All of it comes behind what was printed and said before. A line that holds no
escape character is printed as it is, whether there is colour or not.
-/

namespace GraphQLCanon.Comparison

/-- A text without escape characters has no escape sequences. -/
theorem withoutEscapes_of_not_mem {characters : List Char} (absent : '\x1b' ∉ characters) :
    withoutEscapes characters = characters := by
  induction characters with
  | nil => rw [withoutEscapes]
  | cons first others inductionHypothesis =>
    rw [List.mem_cons, not_or] at absent
    rw [withoutEscapes, if_neg (Ne.symm absent.1), inductionHypothesis absent.2]

end GraphQLCanon.Comparison

namespace GraphQLCanon.CommandLine

/-- A line without escape characters is printed as it is. -/
theorem echoed_of_not_mem {text : String} (absent : '\x1b' ∉ text.toList) (colour : Bool) :
    echoed colour text = text ++ "\n" := by
  cases colour with
  | true => rfl
  | false =>
    rw [echoed, Comparison.withoutEscapes_of_not_mem absent, String.ofList_toList]
    rfl

/-- No number is written with an escape character. -/
theorem escape_not_mem_toString (number : Nat) : '\x1b' ∉ (toString number).toList := by
  rw [Nat.toString_eq_ofList_toDigits, String.toList_ofList]
  intro inside
  have digit := Nat.isDigit_of_mem_toDigits (by decide) (by decide) inside
  contradiction

/-- The number of files that differ is printed as it is. -/
theorem echoed_unformatted (number : Nat) (colour : Bool) :
    echoed colour ("\n" ++ toString number ++ " file(s) would be reformatted.") =
      "\n" ++ toString number ++ " file(s) would be reformatted.\n" := by
  have absent :
      '\x1b' ∉ ("\n" ++ toString number ++ " file(s) would be reformatted.").toList := by
    rw [String.toList_append, String.toList_append, List.mem_append, List.mem_append, not_or,
      not_or]
    exact ⟨⟨by decide, escape_not_mem_toString number⟩, by decide⟩
  rw [echoed_of_not_mem absent, String.append_assoc]
  rfl

/-- The canonical form of the text in a file. -/
def Store.canonicalForm (store : Store) (options : Options) (path : String) :
    Except FormatError String :=
  formatText (formattedPart (store.content path)) options

variable (request : Request) (colour : Bool) (store : Store) (path : String)

/-- What a run says of a file before the file is formatted, if it tells what it does. -/
def Request.announcement : String :=
  if request.verbose then
    echoed colour ("Formatting " ++ normalPath path ++ " as " ++
      (if isSchema (formattedPart (store.content path)) then "schema" else "query") ++ "...")
  else ""

/-- What a run says of a file that has a canonical form. -/
def Request.notes : String :=
  request.announcement colour store path ++
    if request.write && request.verbose then echoed colour ("  Wrote " ++ normalPath path) else ""

/-- What a run prints for a file with some canonical form. -/
def Request.shownAs (form : String) : String :=
  if request.write then ""
  else if request.check then
    if form = formattedPart (store.content path) then ""
    else String.join ((comparisonLines (normalPath path) (formattedPart (store.content path))
      form).map (echoed colour))
  else echoed colour form

/-- What a run prints for a file; nothing where it has no canonical form. -/
def Request.shown : String :=
  (store.canonicalForm request.options path).toOption.elim "" (request.shownAs colour store path)

/-- True of a file that a run of comparisons counts: its text is not its canonical form. -/
def Request.counts : Bool :=
  request.check &&
    decide (store.canonicalForm request.options path ≠ .ok (formattedPart (store.content path)))

variable {request colour store path} {progress : Progress} {form : String}

/-- What is printed for a file does not depend on the other files. -/
theorem shown_files (request : Request) (files : List String) :
    Request.shown { request with files := files } colour store path =
      request.shown colour store path := rfl

/-- What is printed for a file with a canonical form. -/
theorem shown_of_accepted (accepted : store.canonicalForm request.options path = .ok form) :
    request.shown colour store path = request.shownAs colour store path form := by
  rw [Request.shown, accepted]
  rfl

/-- A file with a canonical form is counted where it is compared with another text. -/
theorem counts_of_accepted (accepted : store.canonicalForm request.options path = .ok form) :
    request.counts store path =
      (request.check && decide (form ≠ formattedPart (store.content path))) := by
  rw [Request.counts, accepted]
  simp only [ne_eq, Except.ok.injEq]

/-- A file is announced behind what was said before. -/
theorem announce_eq :
    progress.announce request colour (normalPath path)
        (formattedPart (progress.store.content path)) =
      { progress with
        errors := progress.errors ++ request.announcement colour progress.store path } := by
  unfold Progress.announce Request.announcement Progress.warn
  split
  · rfl
  · simp

/-- A visit ends with what the canonical form of the file decides. -/
theorem visit_eq :
    progress.visit request colour path =
      Progress.conclude { progress with
          errors := progress.errors ++ request.announcement colour progress.store path }
        request colour path (normalPath path) (formattedPart (progress.store.content path))
        (progress.store.canonicalForm request.options path) := by
  rw [← announce_eq]
  rfl

/-- Lines are printed one behind the other. -/
theorem foldl_say (lines : List String) (progress : Progress) :
    lines.foldl (fun current line => current.say colour line) progress =
      { progress with output := progress.output ++ String.join (lines.map (echoed colour)) } := by
  induction lines generalizing progress with
  | nil => simp
  | cons first others inductionHypothesis =>
    rw [List.foldl_cons, inductionHypothesis]
    simp [Progress.say, String.append_assoc]

variable (colour) in
/-- A visit to a file that has a canonical form adds what is printed and said of the file,
and writes the form back if that was asked for. -/
theorem visit_accepted (single : ¬(request.write = true ∧ request.check = true))
    (accepted : progress.store.canonicalForm request.options path = .ok form) :
    progress.visit request colour path =
      .ok ⟨if request.write then progress.store.write path (form ++ "\n") else progress.store,
        progress.output ++ request.shown colour progress.store path,
        progress.errors ++ request.notes colour progress.store path,
        progress.unformatted + if request.counts progress.store path then 1 else 0⟩ := by
  rw [visit_eq, shown_of_accepted accepted, counts_of_accepted accepted, accepted,
    Progress.conclude]
  unfold Request.shownAs Request.notes
  cases write : request.write with
  | true =>
    have unchecked : request.check = false := by simpa [write] using single
    cases verbose : request.verbose <;>
      simp [Progress.writeBack, Progress.warn, verbose, unchecked, String.append_assoc]
  | false =>
    cases check : request.check with
    | true =>
      by_cases same : form = formattedPart (progress.store.content path)
      · simp [Progress.compare, same]
      · simp [Progress.compare, same, foldl_say]
    | false => simp [Progress.say]

variable (colour) in
/-- A visit to a file without canonical form says so, and does nothing else. -/
theorem visit_refused {error : FormatError}
    (refused : progress.store.canonicalForm request.options path = .error error) :
    progress.visit request colour path =
      .error { progress with
        errors := progress.errors ++ (request.announcement colour progress.store path ++
          echoed colour ("Error: " ++ normalPath path ++ ": " ++ error.message)) } := by
  rw [visit_eq, refused, Progress.conclude, Progress.warn, String.append_assoc]

end GraphQLCanon.CommandLine
