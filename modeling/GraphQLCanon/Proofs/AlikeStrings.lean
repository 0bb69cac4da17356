import Mathlib.Data.List.Basic
import GraphQLCanon.Proofs.DisplayedLines
import GraphQLCanon.Proofs.QuotedStrings
import GraphQLCanon.Proofs.BlockStrings

/-!
# Strings that are displayed alike

A source of a string that is alike to the written form of its own value is that form. The
one exception are block strings whose value consists of breaks: there it cannot be seen
where the line feeds stand that writing puts around the value.
-/

namespace GraphQLCanon.Lexical

open GraphQLCanon.Text

namespace QuotedString

/-- The digits of control characters are no breaks. -/
theorem isDisplayBreak_hexDigits {code : Nat} (control : code < 0xA0) :
    ∀ digit ∈ hexDigits 4 code, isDisplayBreak digit = false := by
  have all : (List.range 0xA0).all
      (fun code => (hexDigits 4 code).all fun digit => !isDisplayBreak digit) = true := by
    decide +kernel
  have digits := List.all_eq_true.1 all code (List.mem_range.2 control)
  simpa using digits

/-- A character is written without breaks, unless it is a break that is written as it is. -/
theorem escape_unbroken_or (character : Char) :
    (∀ written ∈ escape character, isDisplayBreak written = false) ∨
      escape character = [character] ∧ isDisplayBreak character = true := by
  unfold escape
  iterate 7
    split
    · exact .inl (by simp; decide)
  split
  · rename_i control
    have digits := @isDisplayBreak_hexDigits character.toNat (by omega)
    rw [List.forall_mem_cons, List.forall_mem_cons]
    exact .inl ⟨by decide, by decide, digits⟩
  · cases broken : isDisplayBreak character
    · exact .inl (by simpa using broken)
    · exact .inr ⟨rfl, rfl⟩

/-- A text alike to a written quoted string is read up to a closing quote, and it is the
written string if it has the same value. -/
theorem readAfter_alike {source written behind rest values : List Char}
    (alike : Alike source (written.flatMap escape ++ '"' :: behind))
    (read : readAfter 0 source = .ok (values, rest)) :
    ∃ body, source = body ++ '"' :: rest ∧ Alike rest behind ∧
      (values = written → body = written.flatMap escape) := by
  induction written generalizing source values with
  | nil =>
    rw [List.flatMap_nil, List.nil_append] at alike
    obtain ⟨quote, others, head, tail, rfl⟩ := List.forall₂_cons_right_iff.1 alike
    obtain rfl := head.eq_of_right (by decide)
    simp only [readAfter, if_true, Except.ok.injEq, Prod.mk.injEq] at read
    obtain ⟨rfl, rfl⟩ := read
    exact ⟨[], rfl, tail, fun _ => rfl⟩
  | cons character more inductionHypothesis =>
    rw [List.flatMap_cons, List.append_assoc] at alike
    obtain ⟨start, others, rfl, front, tail⟩ := alike.split
    -- Either way the front is one character of the value, and reading goes on behind it.
    have step : ∃ value, readAfter 0 (start ++ others) =
          (readAfter 0 others).map (fun parts => (value :: parts.1, parts.2)) ∧
        (value = character → start = escape character) := by
      rcases escape_unbroken_or character with unbroken | ⟨plain, broken⟩
      · obtain rfl := front.eq_of_unbroken unbroken
        exact ⟨character, readAfter_escape_append character others, fun _ => rfl⟩
      · rw [plain] at front ⊢
        obtain ⟨value, _, head, nothing, rfl⟩ := List.forall₂_cons_right_iff.1 front
        obtain rfl := List.forall₂_nil_right_iff.1 nothing
        have isBreak : isDisplayBreak value = true := head.isDisplayBreak_eq.trans broken
        refine ⟨value, ?_, fun same => by rw [same]⟩
        have notQuote : value ≠ '"' := by
          rintro rfl
          contradiction
        have notBackslash : value ≠ '\\' := by
          rintro rfl
          contradiction
        have inLine : isLineBreak value = false := by
          by_contra ended
          rw [Bool.not_eq_false] at ended
          simp [readAfter, notQuote, ended] at read
        simp [readAfter, notQuote, notBackslash, inLine]
    obtain ⟨value, stepped, same⟩ := step
    rw [stepped] at read
    cases inner : readAfter 0 others with
    | error fault => simp [inner, Except.map] at read
    | ok parts =>
      simp only [inner, Except.map, Except.ok.injEq, Prod.mk.injEq] at read
      obtain ⟨rfl, rfl⟩ := read
      obtain ⟨body, rfl, behindAlike, spelled⟩ := inductionHypothesis tail inner
      refine ⟨start ++ body, by simp, behindAlike, fun whole => ?_⟩
      obtain ⟨first, further⟩ := List.cons.inj whole
      rw [same first, spelled further, List.flatMap_cons]

end QuotedString

namespace BlockString

section Reading

/-- A text alike to the source of a block string is the source of one with a raw text that is
alike. Where the raw texts are the same, so are their spellings. -/
theorem readRaw_alike {source written raw behind : List Char} (alike : Alike source written)
    (read : readRaw written = .ok (raw, behind)) :
    ∃ inner rest, readRaw source = .ok (inner, rest) ∧ Alike inner raw ∧ Alike rest behind ∧
      inner ⊆ source ∧
      (inner = raw → ∃ spelling, source = spelling ++ rest ∧ written = spelling ++ behind) := by
  have solid : isDisplayBreak '"' = false ∧ isDisplayBreak '\\' = false := by decide
  fun_induction readRaw written generalizing source raw with
  | case1 => contradiction
  | case2 more =>
    cases read
    obtain ⟨others, rfl, tail⟩ :=
      @Alike.split_unbroken _ ['"', '"', '"'] behind alike (by simpa using solid.1)
    exact ⟨[], others, rfl, .nil, tail, by simp, fun _ => ⟨['"', '"', '"'], rfl, rfl⟩⟩
  | case3 more inductionHypothesis =>
    cases further : readRaw more with
    | error fault => simp [further, Except.map] at read
    | ok parts =>
      simp only [further, Except.map, Except.ok.injEq, Prod.mk.injEq] at read
      obtain ⟨rfl, rfl⟩ := read
      obtain ⟨others, rfl, tail⟩ :=
        @Alike.split_unbroken _ ['\\', '"', '"', '"'] more alike (by simpa using solid.symm)
      obtain ⟨inner, rest, again, same, left, inside, spelled⟩ := inductionHypothesis tail further
      have quote : AlikeChar '"' '"' := .inl rfl
      refine ⟨'"' :: '"' :: '"' :: inner, rest, by simp [readRaw, again, Except.map],
        .cons quote (.cons quote (.cons quote same)), left, ?_, fun whole => ?_⟩
      · have later := List.subset_append_of_subset_right ['\\', '"', '"', '"'] inside
        simpa [List.cons_subset] using later
      · simp only [List.cons.injEq, true_and] at whole
        obtain ⟨spelling, rfl, rfl⟩ := spelled whole
        exact ⟨'\\' :: '"' :: '"' :: '"' :: spelling, rfl, rfl⟩
  | case4 character more open' plain inductionHypothesis =>
    cases further : readRaw more with
    | error fault => simp [further, Except.map] at read
    | ok parts =>
      simp only [further, Except.map, Except.ok.injEq, Prod.mk.injEq] at read
      obtain ⟨rfl, rfl⟩ := read
      obtain ⟨first, others, head, tail, rfl⟩ := List.forall₂_cons_right_iff.1 alike
      obtain ⟨inner, rest, again, same, left, inside, spelled⟩ := inductionHypothesis tail further
      have back : Alike more others := Alike.symm tail
      have closed (quotes rest : List Char) (opened : others = quotes ++ rest)
          (unbroken : ∀ quote ∈ quotes, isDisplayBreak quote = false) :
          ∃ rest, more = quotes ++ rest := by
        rw [opened] at back
        obtain ⟨rest, split, -⟩ := back.split_unbroken unbroken
        exact ⟨rest, split⟩
      have stepped : readRaw (first :: others) =
          (readRaw others).map fun parts => (first :: parts.1, parts.2) := by
        refine readRaw_cons ?_ ?_
        · rintro rest rfl quotes
          obtain ⟨rest, split⟩ := closed ['"', '"'] rest quotes (by simpa using solid.1)
          exact open' rest (head.symm.eq_of_right (by decide)) split
        · rintro rest rfl quotes
          obtain ⟨rest, split⟩ := closed ['"', '"', '"'] rest quotes (by simpa using solid.1)
          exact plain rest (head.symm.eq_of_right (by decide)) split
      refine ⟨first :: inner, rest, by rw [stepped, again]; rfl, .cons head same, left, ?_, ?_⟩
      · exact List.cons_subset_cons first inside
      · intro whole
        obtain ⟨rfl, further⟩ := List.cons.inj whole
        obtain ⟨spelling, rfl, rfl⟩ := spelled further
        exact ⟨first :: spelling, rfl, rfl⟩

end Reading

section Values

variable {lines : List (List Char)} {raw : List Char}

/-- Lines under others are joined by a line feed. -/
theorem joinLines_append {upper lower : List (List Char)} (above : upper ≠ [])
    (below : lower ≠ []) :
    joinLines (upper ++ lower) = joinLines upper ++ '\n' :: joinLines lower := by
  obtain ⟨next, others, rfl⟩ := List.exists_cons_of_ne_nil below
  induction upper with
  | nil => contradiction
  | cons line rest inductionHypothesis =>
    cases rest with
    | nil => simp
    | cons second rest =>
      rw [List.cons_append, List.cons_append, joinLines_cons_cons, ← List.cons_append,
        inductionHypothesis (by simp), joinLines_cons_cons, List.append_assoc, List.cons_append]

/-- A text without carriage returns is its lines with line feeds between them. -/
theorem joinLines_lines {text : List Char} (returnless : '\r' ∉ text) :
    joinLines (Text.lines text) = text := by
  unfold Text.lines
  induction text with
  | nil => rfl
  | cons character rest inductionHypothesis =>
    rw [List.mem_cons, not_or] at returnless
    have tail := inductionHypothesis returnless.2
    obtain ⟨line, others, cut⟩ := List.exists_cons_of_ne_nil
      (splitLines_ne_nil isLineBreak rest)
    rw [cut] at tail
    rw [splitLines_cons returnless.1, cut]
    by_cases feed : character = '\n'
    · subst feed
      rw [if_pos (by decide), joinLines_cons_cons, tail, List.nil_append]
    · have inLine : isLineBreak character = false := by
        simp [isLineBreak, feed, Ne.symm returnless.1]
      rw [inLine, if_neg (by decide), prependToFirst, ← tail]
      cases others <;> simp

/-- The number of spaces and tabs in some lines. -/
def indents : List (List Char) → Nat
  | [] => 0
  | line :: others => line.countP isIndent + indents others

/-- Joining lines adds no spaces and tabs. -/
theorem countP_joinLines (lines : List (List Char)) :
    (joinLines lines).countP isIndent = indents lines := by
  induction lines with
  | nil => rfl
  | cons line others inductionHypothesis =>
    cases others with
    | nil => simp [indents]
    | cons second others =>
      have feed : isIndent '\n' = false := by decide
      rw [joinLines_cons_cons, List.countP_append, List.countP_cons, feed, inductionHypothesis]
      simp [indents]

/-- The spaces and tabs of lines under others are added to those of these. -/
theorem indents_append (upper lower : List (List Char)) :
    indents (upper ++ lower) = indents upper + indents lower := by
  induction upper with
  | nil => simp [indents]
  | cons line others inductionHypothesis =>
    rw [List.cons_append, indents, indents, inductionHypothesis, Nat.add_assoc]

/-- Cutting the front of lines off adds no spaces and tabs. -/
theorem indents_drop_le (count : Nat) (lines : List (List Char)) :
    indents (lines.map (·.drop count)) ≤ indents lines := by
  induction lines with
  | nil => exact Nat.le_refl _
  | cons line others inductionHypothesis =>
    rw [List.map_cons, indents, indents]
    exact Nat.add_le_add (List.drop_sublist count line).countP_le inductionHypothesis

/-- The indentation of a line consists of spaces and tabs. -/
theorem countP_drop_indentation (line : List Char) :
    (line.drop (indentation line)).countP isIndent + indentation line = line.countP isIndent := by
  have taken : line.take (indentation line) = line.takeWhile isIndent :=
    (List.prefix_iff_eq_take.1 (List.takeWhile_prefix isIndent)).symm
  have all : (line.takeWhile isIndent).countP isIndent = indentation line :=
    List.countP_eq_length.2 fun character inside =>
      List.all_eq_true.1 List.all_takeWhile character inside
  conv_rhs => rw [← List.take_append_drop (indentation line) line]
  rw [List.countP_append, taken, all, Nat.add_comm]

/-- Where removing the common indentation removes no space and no tab, there is none. -/
theorem commonIndentation_eq_zero_of_indents
    (kept : indents (lines.map (·.drop (commonIndentation lines))) = indents lines) :
    commonIndentation lines = 0 := by
  by_cases content : ∃ line ∈ lines, isBlankLine line = false
  · obtain ⟨line, inside, shown⟩ := content
    obtain ⟨least, member, -, same⟩ := exists_indentation_eq inside shown
    obtain ⟨upper, lower, split⟩ := List.append_of_mem member
    have counted := countP_drop_indentation least
    have above := indents_drop_le (commonIndentation lines) upper
    have below := indents_drop_le (commonIndentation lines) lower
    rw [same] at counted
    conv_rhs at kept => rw [split]
    conv_lhs at kept => arg 1; arg 2; rw [split]
    rw [List.map_append, List.map_cons, indents_append, indents_append, indents, indents] at kept
    omega
  · have blank : lines.filter (fun line => !isBlankLine line) = [] := by
      rw [List.filter_eq_nil_iff]
      intro line inside
      have hidden : isBlankLine line = true := by
        by_contra shown
        exact content ⟨line, inside, by simpa using shown⟩
      simp [hidden]
    simp [commonIndentation, blank]

/-- Blank lines without spaces and tabs are empty. -/
theorem eq_replicate_of_indents (blank : ∀ line ∈ lines, isBlankLine line = true)
    (none : indents lines = 0) : lines = List.replicate lines.length [] := by
  rw [List.eq_replicate_iff]
  refine ⟨rfl, fun line inside => ?_⟩
  have all : line.countP isIndent = line.length :=
    List.countP_eq_length.2 (List.all_eq_true.1 (blank line inside))
  obtain ⟨upper, lower, split⟩ := List.append_of_mem inside
  rw [split, indents_append, indents] at none
  exact List.length_eq_zero_iff.1 (by omega)

/-- Empty lines around others are line feeds around them. -/
theorem joinLines_replicate (nonempty : lines ≠ []) (before behind : Nat) :
    joinLines (List.replicate before [] ++ lines ++ List.replicate behind []) =
      List.replicate before '\n' ++ joinLines lines ++ List.replicate behind '\n' := by
  have front : joinLines (List.replicate before [] ++ lines) =
      List.replicate before '\n' ++ joinLines lines := by
    induction before with
    | zero => rfl
    | succ before inductionHypothesis =>
      rw [List.replicate_succ, List.cons_append, ← List.singleton_append,
        joinLines_append (by simp) (by simp [nonempty]), inductionHypothesis, joinLines_singleton,
        List.replicate_succ]
      rfl
  induction behind with
  | zero => simpa using front
  | succ behind inductionHypothesis =>
    rw [List.replicate_succ', ← List.append_assoc, joinLines_append (by simp [nonempty]) (by simp),
      inductionHypothesis, joinLines_singleton, List.replicate_succ']
    simp

/-- A raw text that has no more spaces and tabs than its value is the value with line feeds
around it. -/
theorem eq_append_value (returnless : '\r' ∉ raw)
    (counted : (value raw).countP isIndent = raw.countP isIndent) :
    ∃ before behind, raw = List.replicate before '\n' ++ value raw ++
      List.replicate behind '\n' := by
  have whole := joinLines_lines returnless
  obtain ⟨first, others, cut⟩ := List.exists_cons_of_ne_nil (splitLines_ne_nil isLineBreak raw)
  change Text.lines raw = first :: others at cut
  have left : value raw = joinLines (Text.trimEnds isBlankLine
      (first :: others.map (·.drop (commonIndentation others)))) := by
    rw [value, cut]
    rfl
  rw [cut] at whole
  obtain ⟨above, below, split, front, back⟩ := exists_append_trimEnds isBlankLine
    (first :: others.map (·.drop (commonIndentation others)))
  have parts := congrArg indents split
  have fewer := indents_drop_le (commonIndentation others) others
  rw [left, ← whole, countP_joinLines, countP_joinLines, indents] at counted
  rw [indents_append, indents_append, indents] at parts
  have flush : commonIndentation others = 0 :=
    commonIndentation_eq_zero_of_indents (by omega)
  rw [eq_replicate_of_indents front (by omega), eq_replicate_of_indents back (by omega)] at split
  have same : others.map (·.drop (commonIndentation others)) = others := by
    simp [flush]
  rw [same] at split left
  by_cases empty : Text.trimEnds isBlankLine (first :: others) = []
  · -- All lines are empty, and the value has none of them.
    rw [empty, List.append_nil, List.replicate_append_replicate] at split
    have counted' := congrArg List.length split
    rw [List.length_replicate, List.length_cons] at counted'
    have lines : first :: others =
        List.replicate 0 [] ++ [[]] ++ List.replicate others.length [] := by
      rw [split, ← counted', List.replicate_succ]
      simp
    refine ⟨0, others.length, ?_⟩
    conv_lhs => rw [← whole, lines, joinLines_replicate (by simp)]
    rw [left, empty]
    rfl
  · refine ⟨above.length, below.length, ?_⟩
    rw [left, ← joinLines_replicate empty, ← split, whole]

/-- A text that is alike to itself with more line feeds in front consists of breaks. -/
theorem all_of_alike_surrounded {text : List Char} {before behind leading trailing : Nat}
    (fewer : before < leading)
    (alike : Alike (List.replicate before '\n' ++ text ++ List.replicate behind '\n')
      (List.replicate leading '\n' ++ text ++ List.replicate trailing '\n')) :
    text.all isDisplayBreak = true := by
  obtain ⟨count, rfl⟩ := Nat.exists_eq_add_of_lt fewer
  have cut : List.replicate (before + count + 1) '\n' =
      List.replicate before '\n' ++ List.replicate (count + 1) '\n' := by
    rw [List.replicate_append_replicate, Nat.add_assoc]
  have shifted := List.forall₂_drop before alike
  rw [cut, List.append_assoc, List.append_assoc, List.append_assoc, List.drop_left' (by simp),
    List.drop_left' (by simp), ← List.append_assoc] at shifted
  exact all_of_alike_shifted (by simp; decide) (by simp) (Alike.symm shifted)

/-- The line feed of a flag is one or none. -/
theorem exists_replicate_feedIf (broken : Bool) :
    ∃ count, feedIf broken = List.replicate count '\n' := by
  cases broken
  · exact ⟨0, rfl⟩
  · exact ⟨1, rfl⟩

/-- A raw text that is alike to the raw text of its value as it is written is that text, unless
the value consists of breaks. -/
theorem eq_spread_or_breaks (returnless : '\r' ∉ raw) (alike : Alike raw (spread (value raw))) :
    raw = spread (value raw) ∨ value raw ≠ [] ∧ (value raw).all isDisplayBreak = true := by
  have apart : ∀ character, isDisplayBreak character = true → isIndent character = false := by
    intro character broken
    have unindented :=
      @of_isDisplayBreak (fun other => !isIndent other) (by decide +kernel) _ broken
    simpa using unindented
  obtain ⟨leading, led⟩ := exists_replicate_feedIf (shape (value raw)).leading
  obtain ⟨trailing, trailed⟩ := exists_replicate_feedIf (shape (value raw)).trailing
  have feeds (count : Nat) : (List.replicate count '\n').countP isIndent = 0 := by
    rw [List.countP_eq_zero]
    intro character inside
    rw [List.eq_of_mem_replicate inside]
    decide
  have counted := alike.countP_eq apart
  rw [spread, led, trailed, List.countP_append, List.countP_append, feeds, feeds, Nat.zero_add,
    Nat.add_zero] at counted
  obtain ⟨before, behind, split⟩ := eq_append_value returnless counted.symm
  have length := alike.length_eq
  rw [spread, led, trailed] at alike length ⊢
  generalize value raw = text at split alike length ⊢
  subst split
  simp only [List.length_append, List.length_replicate] at length
  by_cases empty : text = []
  · have same : before + behind = leading + trailing := by omega
    left
    simp only [empty, List.append_nil, List.replicate_append_replicate, same]
  · rcases Nat.lt_trichotomy before leading with fewer | rfl | more
    · exact .inr ⟨empty, all_of_alike_surrounded fewer alike⟩
    · have same : behind = trailing := by omega
      exact .inl (by rw [same])
    · exact .inr ⟨empty, all_of_alike_surrounded more alike.symm⟩

end Values

end BlockString

end GraphQLCanon.Lexical
