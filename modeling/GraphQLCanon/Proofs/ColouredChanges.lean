import GraphQLCanon.Proofs.VisibleChanges

/-!
# Colours of changes

A printed line of a comparison is coloured by its first characters, which are its sign and the
beginning of its content. So an added line is green and a removed line is red unless its content
begins with two more of its sign: then it looks like the header of a file and has no colour. All
other lines have none either. Where no line of the two texts begins in that way, the colours are
exactly those of the changes.
-/

namespace GraphQLCanon.Comparison

/-- The colour that stands for a role. -/
def LineRole.colour? : LineRole → Option Colour
  | added => some .green
  | removed => some .red
  | oldHeader | newHeader | hunkHeader | context => none

/-- A change whose content begins with two more of its sign, so that it is printed like the header
of a file. -/
def UnifiedLine.HeaderLike (line : UnifiedLine) : Prop :=
  (line.role = .added ∧ "++".toList <+: line.content.toList) ∨
    (line.role = .removed ∧ "--".toList <+: line.content.toList)

instance (line : UnifiedLine) : Decidable line.HeaderLike := inferInstanceAs (Decidable (_ ∨ _))

section Colours

/-- The first characters of a line give it the colour of its role, unless it is a change that
looks like the header of a file. -/
theorem ofPrinted?_write (line : UnifiedLine) :
    Colour.ofPrinted? line.write.toList = if line.HeaderLike then none else line.role.colour? := by
  obtain ⟨role, content⟩ := line
  have signs (sign : Char) : [sign, sign].isPrefixOf content.toList = false ↔
      ¬ [sign, sign] <+: content.toList := by
    rw [← List.isPrefixOf_iff_prefix, Bool.not_eq_true]
  cases role <;>
    simp [UnifiedLine.write, LineRole.sign, Colour.ofPrinted?, UnifiedLine.HeaderLike,
      LineRole.colour?, String.toList_append, signs]

/-- A text in a colour is longer than the text. -/
theorem Colour.paint_ne (colour : Colour) (text : String) : colour.paint text ≠ text := by
  intro same
  have lengths := congrArg String.length same
  simp only [paint, String.length_append] at lengths
  have escape : "\x1b[".length = 2 := rfl
  omega

/-- A text does not look the same in two colours. -/
theorem Colour.paint_inj {one two : Colour} {text : String} :
    one.paint text = two.paint text ↔ one = two := by
  refine ⟨fun same => ?_, fun same => by rw [same]⟩
  have characters := congrArg String.toList same
  cases one <;> cases two <;>
    simp [paint, Colour.code, String.toList_append] at characters ⊢

/-- What is printed of a line tells the colour that its first characters give it. -/
theorem paintPrinted_eq_paint_iff {printed : String} {colour : Colour} :
    paintPrinted printed = colour.paint printed ↔
      Colour.ofPrinted? printed.toList = some colour := by
  unfold paintPrinted
  cases Colour.ofPrinted? printed.toList with
  | none => simp [(colour.paint_ne printed).symm]
  | some other => simp [Colour.paint_inj]

/-- A line is printed as it is when its first characters give it no colour. -/
theorem paintPrinted_eq_self_iff {printed : String} :
    paintPrinted printed = printed ↔ Colour.ofPrinted? printed.toList = none := by
  unfold paintPrinted
  cases Colour.ofPrinted? printed.toList with
  | none => simp
  | some other => simp [other.paint_ne printed]

/-- A line is printed in a colour when that is the colour of its role and the line does not look
like the header of a file. -/
theorem paintPrinted_write_eq_paint_iff {line : UnifiedLine} {colour : Colour} :
    paintPrinted line.write = colour.paint line.write ↔
      line.role.colour? = some colour ∧ ¬ line.HeaderLike := by
  rw [paintPrinted_eq_paint_iff, ofPrinted?_write]
  split <;> simp_all

/-- The other lines are printed as they are. -/
theorem paintPrinted_write_eq_self_iff {line : UnifiedLine} :
    paintPrinted line.write = line.write ↔ line.role.colour? = none ∨ line.HeaderLike := by
  rw [paintPrinted_eq_self_iff, ofPrinted?_write]
  split <;> simp_all

end Colours

section Contents

variable {oldTitle newTitle : String} {old new : List String} {line : UnifiedLine}

/-- What a script changes are items of the two lists. -/
theorem subset_of_changed_mem_script {removed added : List String}
    (inside : .changed removed added ∈ script old new) : removed ⊆ old ∧ added ⊆ new := by
  obtain ⟨olds, news⟩ := flatMap_scriptBetween old new
    (fun line => !(new.eraseDups.filter (isFrequent new)).contains line)
  constructor
  · intro item among
    rw [← olds]
    exact List.mem_flatMap.2 ⟨_, inside, among⟩
  · intro item among
    rw [← news]
    exact List.mem_flatMap.2 ⟨_, inside, among⟩

/-- A unified form is empty, or it consists of the two headers of the files and, behind them, the
headers and the segments of its hunks. -/
theorem unified_cases (oldTitle newTitle : String) (old new : List String) :
    unified oldTitle newTitle old new = [] ∨
      unified oldTitle newTitle old new =
        ⟨.oldHeader, oldTitle⟩ :: ⟨.newHeader, newTitle⟩ ::
          (hunks (script old new)).flatMap Hunk.unified := by
  unfold unified
  split
  · exact .inl rfl
  · exact .inr rfl

/-- A line of the hunks of a script is the header of a hunk or stands in a segment of one. -/
theorem mem_hunks_unified (inside : line ∈ (hunks (script old new)).flatMap Hunk.unified) :
    line.role = .hunkHeader ∨
      ∃ hunk ∈ hunks (script old new), ∃ segment ∈ hunk.segments, line ∈ segment.unified := by
  obtain ⟨hunk, among, shown⟩ := List.mem_flatMap.1 inside
  rcases List.mem_cons.1 shown with rfl | shown
  · exact .inl rfl
  · obtain ⟨segment, part, shown⟩ := List.mem_flatMap.1 shown
    exact .inr ⟨hunk, among, segment, part, shown⟩

/-- The lines of a segment are context, or removed and added lines of a change. -/
theorem mem_segment_unified {segment : Segment String} (inside : line ∈ segment.unified) :
    line.role = .context ∨ ∃ removed added, segment = .changed removed added ∧
      (line.role = .removed ∧ line.content ∈ removed ∨
        line.role = .added ∧ line.content ∈ added) := by
  cases segment with
  | kept lines =>
    obtain ⟨content, -, rfl⟩ := List.mem_map.1 inside
    exact .inl rfl
  | changed removed added =>
    refine .inr ⟨removed, added, rfl, ?_⟩
    rcases List.mem_append.1 inside with early | late
    · obtain ⟨content, among, rfl⟩ := List.mem_map.1 early
      exact .inl ⟨rfl, among⟩
    · obtain ⟨content, among, rfl⟩ := List.mem_map.1 late
      exact .inr ⟨rfl, among⟩

/-- Behind the headers of the files there are headers of hunks, context, removed lines of the old
text and added lines of the new one. -/
theorem mem_hunks_unified_cases
    (inside : line ∈ (hunks (script old new)).flatMap Hunk.unified) :
    line.role = .hunkHeader ∨ line.role = .context ∨
      line.role = .removed ∧ line.content ∈ old ∨ line.role = .added ∧ line.content ∈ new := by
  rcases mem_hunks_unified inside with header | ⟨hunk, among, segment, part, shown⟩
  · exact .inl header
  · rcases mem_segment_unified shown with context | ⟨removed, added, rfl, change⟩
    · exact .inr (.inl context)
    · have subset := subset_of_changed_mem_script (changed_mem_hunks.1 ⟨hunk, among, part⟩)
      refine .inr (.inr (change.imp ?_ ?_))
      · exact And.imp_right fun content => subset.1 content
      · exact And.imp_right fun content => subset.2 content

/-- Where no line of the old text begins with two minus signs and no line of the new one with two
plus signs, no change looks like the header of a file. -/
theorem not_headerLike (olds : ∀ content ∈ old, ¬ "--".toList <+: content.toList)
    (news : ∀ content ∈ new, ¬ "++".toList <+: content.toList)
    (inside : line ∈ unified oldTitle newTitle old new) : ¬ line.HeaderLike := by
  rcases unified_cases oldTitle newTitle old new with none | all
  · simp [none] at inside
  · rw [all, List.mem_cons, List.mem_cons] at inside
    rcases inside with rfl | rfl | inside
    · simp [UnifiedLine.HeaderLike]
    · simp [UnifiedLine.HeaderLike]
    · rcases mem_hunks_unified_cases inside with role | role | ⟨role, among⟩ | ⟨role, among⟩
      · simp [UnifiedLine.HeaderLike, role]
      · simp [UnifiedLine.HeaderLike, role]
      · simpa [UnifiedLine.HeaderLike, role] using olds _ among
      · simpa [UnifiedLine.HeaderLike, role] using news _ among

end Contents

end GraphQLCanon.Comparison

namespace GraphQLCanon.CommandLine

open GraphQLCanon.Comparison

/-- With colour, the comparison of any two texts under any title is printed line by line, with a
green line for an added one and a red line for a removed one, unless the change looks like the
header of a file, and with all other lines as they are. The headers of the files are the first two
lines, and no line behind them is one. Where no line of the old text begins with two minus signs
and none of the new one with two plus signs, no change looks like the header of a file: a line is
green exactly when it was added, and red exactly when it was removed. -/
theorem comparison_coloured (title text form : String) :
    let lines := unified title (title ++ " (formatted)") (Text.displayLines text)
      (Text.displayLines form)
    let printedLines := (comparisonLines title text form).map (echoed true)
    (form ≠ text → ∀ progress : Progress, (progress.compare true title text form).output =
        progress.output ++ String.join printedLines) ∧
      List.Forall₂
        (fun line printed =>
          (printed = Colour.green.paint line.write ++ "\n" ↔
            line.role = .added ∧ ¬ line.HeaderLike) ∧
          (printed = Colour.red.paint line.write ++ "\n" ↔
            line.role = .removed ∧ ¬ line.HeaderLike) ∧
          (printed = line.write ++ "\n" ↔
            (line.role ≠ .added ∧ line.role ≠ .removed) ∨ line.HeaderLike))
        lines printedLines ∧
      (lines = [] ∨ ∃ others,
        lines = ⟨.oldHeader, title⟩ :: ⟨.newHeader, title ++ " (formatted)"⟩ :: others ∧
          ∀ line ∈ others, line.role ≠ .oldHeader ∧ line.role ≠ .newHeader) ∧
      ((∀ content ∈ Text.displayLines text, ¬ "--".toList <+: content.toList) →
        (∀ content ∈ Text.displayLines form, ¬ "++".toList <+: content.toList) →
          ∀ line ∈ lines, ¬ line.HeaderLike) := by
  intro lines printedLines
  have green (line : UnifiedLine) : line.role.colour? = some .green ↔ line.role = .added := by
    cases line.role <;> decide
  have red (line : UnifiedLine) : line.role.colour? = some .red ↔ line.role = .removed := by
    cases line.role <;> decide
  have plain (line : UnifiedLine) :
      line.role.colour? = none ↔ line.role ≠ .added ∧ line.role ≠ .removed := by
    cases line.role <;> decide
  refine ⟨fun differs progress => ?_, ?_, ?_,
    fun olds news line inside => not_headerLike olds news inside⟩
  · rw [Progress.compare, if_neg differs, foldl_say]
  · simp only [printedLines]
    rw [comparisonLines, List.map_map, List.forall₂_map_right_iff, List.forall₂_same]
    intro line _
    have same {written : String} : echoed true (paintPrinted line.write) = written ++ "\n" ↔
        paintPrinted line.write = written := String.append_left_inj "\n"
    refine ⟨?_, ?_, ?_⟩
    · rw [Function.comp_apply, same, paintPrinted_write_eq_paint_iff, green]
    · rw [Function.comp_apply, same, paintPrinted_write_eq_paint_iff, red]
    · rw [Function.comp_apply, same, paintPrinted_write_eq_self_iff, plain]
  · refine (unified_cases title (title ++ " (formatted)") (Text.displayLines text)
      (Text.displayLines form)).imp_right fun all => ⟨_, all, fun line inside => ?_⟩
    rcases mem_hunks_unified_cases inside with role | role | ⟨role, -⟩ | ⟨role, -⟩ <;>
      simp [role]

/-- The comparison of a query on three lines with its canonical form on six: the block string has
a line that begins with two plus signs. -/
theorem unified_plusSigns :
    unified "a" "a (formatted)" (Text.displayLines "\x7b a(x: \"\"\"\n  b\n  ++c\"\"\") \x7d")
        (Text.displayLines "query \x7b\n  a(x: \"\"\"\nb\n++c\n\"\"\")\n\x7d") =
      [⟨.oldHeader, "a"⟩, ⟨.newHeader, "a (formatted)"⟩, ⟨.hunkHeader, "-1,3 +1,6 @@"⟩,
        ⟨.removed, "\x7b a(x: \"\"\""⟩, ⟨.removed, "  b"⟩, ⟨.removed, "  ++c\"\"\") \x7d"⟩,
        ⟨.added, "query \x7b"⟩, ⟨.added, "  a(x: \"\"\""⟩, ⟨.added, "b"⟩, ⟨.added, "++c"⟩,
        ⟨.added, "\"\"\")"⟩, ⟨.added, "\x7d"⟩] := by
  have old : Text.displayLines "\x7b a(x: \"\"\"\n  b\n  ++c\"\"\") \x7d" =
      ["\x7b a(x: \"\"\"", "  b", "  ++c\"\"\") \x7d"] := by
    decide +kernel
  have new : Text.displayLines "query \x7b\n  a(x: \"\"\"\nb\n++c\n\"\"\")\n\x7d" =
      ["query \x7b", "  a(x: \"\"\"", "b", "++c", "\"\"\")", "\x7d"] := by
    decide +kernel
  rw [old, new]
  cbv

set_option maxRecDepth 4000 in
/-- A line of a block string that begins with two plus signs is added, and printed without a
colour. -/
theorem run_check_uncoloured :
    let store := Store.ofFiles [("a", "\x7b a(x: \"\"\"\n  b\n  ++c\"\"\") \x7d\n")]
    let text := "\x7b a(x: \"\"\"\n  b\n  ++c\"\"\") \x7d"
    let form := "query \x7b\n  a(x: \"\"\"\nb\n++c\n\"\"\")\n\x7d"
    let lines := unified "a" "a (formatted)" (Text.displayLines text) (Text.displayLines form)
    (run store ["format", "--check", "a"] true).output =
        String.join (lines.map fun line => echoed true (paintPrinted line.write)) ∧
      ∃ line ∈ lines, line.role = .added ∧
        echoed true (paintPrinted line.write) ≠ Colour.green.paint line.write ++ "\n" := by
  intro store text form lines
  have formed : store.canonicalForm Options.standard "a" = .ok form := by
    cbv
  have content : formattedPart (store.content "a") = text := by
    cbv
  have told : sortArguments ⟨[], [], []⟩ ["--check", "a"] =
      .ok ⟨[.check], [], ["a"]⟩ := by
    cbv
  have admitted : Sorted.Admits ⟨[.check], [], ["a"]⟩ store Options.standard := by
    refine ⟨rfl, ⟨_, _, rfl, rfl, rfl⟩, by simp, ?_, by simp⟩
    simp only [List.forall_mem_singleton]
    exact ⟨_, by cbv⟩
  have shown : shownChanges (normalPath "a") text form = lines := by
    rw [shownChanges, if_neg (by decide)]
    rfl
  have visited := @visit_check_accepted (Sorted.requestUnder ⟨[.check], [], ["a"]⟩
    Options.standard) ⟨store, "", "", 0⟩ "a" form true rfl rfl formed
  rw [content, shown, if_neg (by decide)] at visited
  have ran : run store ["format", "--check", "a"] true = _ :=
    run_of_told true told (by simp) admitted
  have compared : lines = _ := unified_plusSigns
  refine ⟨?_, ⟨.added, "++c"⟩, by simp [compared], rfl, by decide⟩
  rw [ran, Request.run, show (Sorted.requestUnder ⟨[.check], [], ["a"]⟩
    Options.standard).files = ["a"] from rfl, Progress.visitAll, visited]
  exact String.empty_append

end GraphQLCanon.CommandLine
