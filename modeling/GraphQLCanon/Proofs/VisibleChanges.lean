import GraphQLCanon.Proofs.AlikeDocuments
import GraphQLCanon.Proofs.DisplayedLines
import GraphQLCanon.Proofs.FileByFile
import GraphQLCanon.Proofs.LineScripts

/-!
# Changes that a run of comparisons shows

A run of comparisons counts a file whose text is not its canonical form, but shows the lines of
the two as they are displayed. So it counts a file without showing a change where the two differ
in breaks only. Such a text has a block string that consists of breaks; for any other text a
file is counted exactly when a change is shown.
-/

namespace GraphQLCanon.CommandLine

open GraphQLCanon.Lexical

/-- The comparison that a run shows of a text and its canonical form: none if they are the
same. -/
def shownChanges (title text form : String) : List Comparison.UnifiedLine :=
  if form = text then []
  else Comparison.unified title (title ++ " (formatted)") (Text.displayLines text)
    (Text.displayLines form)

/-- The text of a file has no blanks at its ends and line feeds as its only unified breaks. -/
theorem plain_formattedPart (content : String) :
    Text.strip (formattedPart content) = formattedPart content ∧
      '\r' ∉ (formattedPart content).toList := by
  refine ⟨Text.strip_strip _, fun inside => ?_⟩
  rw [formattedPart, Text.toList_strip] at inside
  have unified := Text.mem_of_mem_trimEnds inside
  rw [String.toList_ofList] at unified
  exact Text.return_not_mem_unifyBreaks _ unified

/-- A change is shown exactly where a text and its canonical form differ in more than breaks, and
nothing at all is shown elsewhere. -/
theorem exists_shownChanges_iff {content form : String} {options : Options} (title : String)
    (accepted : formatText (formattedPart content) options = .ok form) :
    ((∃ line ∈ shownChanges title (formattedPart content) form, line.Differs) ↔
        ¬ Text.Alike (formattedPart content).toList form.toList) ∧
      (Text.Alike (formattedPart content).toList form.toList →
        shownChanges title (formattedPart content) form = []) := by
  obtain ⟨stripped, returnless⟩ := plain_formattedPart content
  obtain ⟨strippedForm, returnlessForm⟩ := plain_of_formatText accepted
  rw [← Text.displayLines_eq_iff stripped strippedForm returnless returnlessForm, shownChanges]
  split
  · rename_i same
    simp [same]
  · refine ⟨Comparison.differs_unified_iff, fun same => ?_⟩
    rw [same, Comparison.unified_self]

variable {request : Request} {progress : Progress} {path form : String}

/-- A visit of a run of comparisons to a file with a canonical form prints the comparison that is
shown and counts the file when its text is not that form. -/
theorem visit_check_accepted (colour : Bool) (check : request.check = true)
    (noWrite : request.write = false)
    (accepted : progress.store.canonicalForm request.options path = .ok form) :
    progress.visit request colour path =
      .ok ⟨progress.store,
        progress.output ++ String.join
          ((shownChanges (normalPath path) (formattedPart (progress.store.content path)) form).map
            fun line => echoed colour (Comparison.paintPrinted line.write)),
        progress.errors ++ request.announcement colour progress.store path,
        progress.unformatted +
          if form = formattedPart (progress.store.content path) then 0 else 1⟩ := by
  rw [visit_accepted colour (by simp [noWrite]) accepted, shown_of_accepted accepted,
    counts_of_accepted accepted]
  by_cases same : form = formattedPart (progress.store.content path)
  · simp [Request.shownAs, Request.notes, shownChanges, noWrite, check, same]
  · simp [Request.shownAs, Request.notes, shownChanges, noWrite, check, same, comparisonLines,
      Function.comp_def]

/-- A visit of a run of comparisons to a file with a canonical form counts the file when its text
is not that form. It shows a change when they differ in more than which break stands where, and
nothing otherwise. Where no block string of the text consists of breaks, a file is counted exactly
when a change is shown. -/
theorem visit_compare (colour : Bool) (check : request.check = true)
    (noWrite : request.write = false)
    (accepted : progress.store.canonicalForm request.options path = .ok form) :
    let text := formattedPart (progress.store.content path)
    let changes := shownChanges (normalPath path) text form
    progress.visit request colour path =
        .ok ⟨progress.store,
          progress.output ++ String.join
            (changes.map fun line => echoed colour (Comparison.paintPrinted line.write)),
          progress.errors ++ request.announcement colour progress.store path,
          progress.unformatted + if form = text then 0 else 1⟩ ∧
      ((∃ line ∈ changes, line.Differs) ↔ ¬ Text.Alike text.toList form.toList) ∧
      (Text.Alike text.toList form.toList → changes = []) ∧
      ((∀ value, .blockString value ∈ (scan text.toList).tokens → isBroken value = false) →
        (form ≠ text ↔ ∃ line ∈ changes, line.Differs)) := by
  intro text changes
  obtain ⟨shown, nothing⟩ := exists_shownChanges_iff (normalPath path) accepted
  refine ⟨visit_check_accepted colour check noWrite accepted, shown, nothing, fun unbroken => ?_⟩
  rw [shown]
  refine not_congr ⟨fun same => ?_, fun alike => ?_⟩
  · rw [same]
    exact List.forall₂_same.2 fun _ _ => .inl rfl
  · exact (eq_of_alike_formatText accepted (plain_formattedPart _).2 alike unbroken).symm

set_option maxRecDepth 4000 in
/-- Selections out of order are counted, and a change is shown: the block string holds more than
breaks. -/
theorem visit_compare_unordered :
    let request : Request := ⟨["a"], false, true, false, Options.standard⟩
    let store := Store.ofFiles [("a", "query \x7b\n  b(x: \"\"\"\x0bc\"\"\")\n  a\n\x7d\n")]
    let text := "query \x7b\n  b(x: \"\"\"\x0bc\"\"\")\n  a\n\x7d"
    let form := "query \x7b\n  a\n  b(x: \"\"\"\x0bc\"\"\")\n\x7d"
    let changes := shownChanges (normalPath "a") text form
    Progress.visit ⟨store, "", "", 0⟩ request false "a" =
        .ok ⟨store,
          "" ++ String.join
            (changes.map fun line => echoed false (Comparison.paintPrinted line.write)),
          "" ++ request.announcement false store "a", 0 + 1⟩ ∧
      ∃ line ∈ changes, line.Differs := by
  intro request store text form changes
  have formed : store.canonicalForm Options.standard "a" = .ok form := by
    cbv
  have content : formattedPart (store.content "a") = text := by
    cbv
  have tokens : (scan text.toList).tokens =
      [.name "query", .punctuator .openBrace, .name "b", .punctuator .openParenthesis, .name "x",
        .punctuator .colon, .blockString "\x0bc", .punctuator .closeParenthesis, .name "a",
        .punctuator .closeBrace] := by
    cbv
  have apart : form ≠ text := by decide
  obtain ⟨visited, -, -, shown⟩ :=
    @visit_compare request ⟨store, "", "", 0⟩ "a" form false rfl rfl formed
  rw [content] at visited shown
  rw [if_neg apart] at visited
  refine ⟨visited, (shown ?_).1 apart⟩
  rw [tokens]
  rintro value inside
  obtain rfl : value = "\x0bc" := by simpa using inside
  decide

set_option maxRecDepth 4000 in
/-- The breaks that a block string consists of are exchanged: the file is counted, and nothing is
printed. -/
theorem run_check_silent :
    let store := Store.ofFiles [("a",
      "query \x7b\n  a(x: \"\"\"\x0b\n\x0b\n\n\"\"\")\n\x7d\n")]
    let outcome := run store ["format", "--check", "a"] false
    outcome.status = 1 ∧ outcome.output = "" ∧
      outcome.errors = "\n1 file(s) would be reformatted.\n" := by
  intro store outcome
  let text := "query \x7b\n  a(x: \"\"\"\x0b\n\x0b\n\n\"\"\")\n\x7d"
  let form := "query \x7b\n  a(x: \"\"\"\n\x0b\n\x0b\n\"\"\")\n\x7d"
  have formed : store.canonicalForm Options.standard "a" = .ok form := by
    cbv
  have content : formattedPart (store.content "a") = text := by
    cbv
  have told : sortArguments ⟨[], [], []⟩ ["--check", "a"] =
      .ok ⟨[.check], [], ["a"]⟩ := by
    cbv
  have admitted : Sorted.Admits ⟨[.check], [], ["a"]⟩ store Options.standard := by
    refine ⟨rfl, ⟨_, _, rfl, rfl, rfl⟩, by simp, ?_, by simp⟩
    simp only [List.forall_mem_singleton]
    exact ⟨_, by cbv⟩
  have alike : Text.Alike text.toList form.toList := by decide
  have silent := (exists_shownChanges_iff (normalPath "a") formed).2
  rw [content] at silent
  have visited := @visit_check_accepted (Sorted.requestUnder ⟨[.check], [], ["a"]⟩
    Options.standard) ⟨store, "", "", 0⟩ "a" form false rfl rfl formed
  rw [content, silent alike, if_neg (by decide)] at visited
  have ran : outcome = _ := run_of_told false told (by simp) admitted
  rw [ran, Request.run, show (Sorted.requestUnder ⟨[.check], [], ["a"]⟩
    Options.standard).files = ["a"] from rfl, Progress.visitAll, visited]
  refine ⟨rfl, rfl, ?_⟩
  cbv

end GraphQLCanon.CommandLine
