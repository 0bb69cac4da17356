import GraphQLCanon.Lexical.BlockString
import GraphQLCanon.Proofs.Trimming

/-!
# Block strings read back

A value that was read from a block string begins and ends with a line that is not
blank, and its lines have no indentation in common where there are several. Such
lines survive a second reading: the line breaks that writing puts around them
open blank lines, which are removed again, and the indentation stays. The quotes
of the value are kept apart from the closing ones by a line break.
-/

namespace GraphQLCanon.Lexical.BlockString

/-- True of characters without a line break among them. -/
def Unbroken (line : List Char) : Prop := ∀ character ∈ line, Text.isLineBreak character = false

/-- The lines that the value of a block string consists of. -/
structure Settled (lines : List (List Char)) : Prop where
  unbroken : ∀ line ∈ lines, Unbroken line
  trimmed : Text.Trimmed isBlankLine lines
  flush : 2 ≤ lines.length → commonIndentation lines = 0

/-- The lines of a text are unbroken. -/
theorem unbroken_of_mem_lines {characters line : List Char}
    (inside : line ∈ Text.lines characters) :
    Unbroken line := by
  unfold Text.lines at inside
  induction characters generalizing line with
  | nil =>
    simp only [Text.splitLines, List.mem_singleton] at inside
    simp [inside, Unbroken]
  | cons character rest inductionHypothesis =>
    unfold Text.splitLines at inside
    split at inside
    · exact inductionHypothesis inside
    · split at inside
      · rcases List.mem_cons.1 inside with rfl | later
        · simp [Unbroken]
        · exact inductionHypothesis later
      · rename_i apart
        cases split : Text.splitLines Text.isLineBreak rest with
        | nil => exact absurd split (Text.splitLines_ne_nil _ _)
        | cons first others =>
          rw [split] at inside inductionHypothesis
          rcases List.mem_cons.1 inside with rfl | later
          · intro other here
            rcases List.mem_cons.1 here with rfl | here
            · simpa using apart
            · exact inductionHypothesis List.mem_cons_self other here
          · exact inductionHypothesis (List.mem_cons_of_mem _ later)

/-- A line feed ends an unbroken line. -/
theorem lines_append_feed {line : List Char} (unbroken : Unbroken line) (rest : List Char) :
    Text.lines (line ++ '\n' :: rest) = line :: Text.lines rest := by
  unfold Text.lines
  induction line with
  | nil => simp [Text.splitLines, Text.isLineBreak]
  | cons character others inductionHypothesis =>
    have head := unbroken character List.mem_cons_self
    have tail := inductionHypothesis fun other inside =>
      unbroken other (List.mem_cons_of_mem _ inside)
    have notReturn : character ≠ '\r' := by
      rintro rfl
      simp [Text.isLineBreak] at head
    simp [Text.splitLines, notReturn, head, tail, Text.prependToFirst]

/-- An unbroken text is its only line. -/
theorem lines_of_unbroken {line : List Char} (unbroken : Unbroken line) :
    Text.lines line = [line] := by
  apply Text.splitLines_of_forall_not Text.isLineBreak line unbroken
  rintro character inside rfl
  simpa [Text.isLineBreak] using unbroken '\r' inside

@[simp]
theorem joinLines_singleton (line : List Char) : joinLines [line] = line := by
  simp [joinLines, List.intercalate]

@[simp]
theorem joinLines_cons_cons (line next : List Char) (others : List (List Char)) :
    joinLines (line :: next :: others) = line ++ '\n' :: joinLines (next :: others) := by
  simp [joinLines, List.intercalate]

/-- Unbroken lines that were joined are cut apart again. -/
theorem lines_joinLines {lines : List (List Char)} (unbroken : ∀ line ∈ lines, Unbroken line)
    (nonempty : lines ≠ []) : Text.lines (joinLines lines) = lines := by
  induction lines with
  | nil => contradiction
  | cons line others inductionHypothesis =>
    have head := unbroken line List.mem_cons_self
    cases others with
    | nil => rw [joinLines_singleton, lines_of_unbroken head]
    | cons next others =>
      rw [joinLines_cons_cons, lines_append_feed head, inductionHypothesis _ (by simp)]
      exact fun line inside => unbroken line (List.mem_cons_of_mem _ inside)

/-- A line feed behind joined lines ends the last of them. -/
theorem lines_joinLines_append_feed {lines : List (List Char)}
    (unbroken : ∀ line ∈ lines, Unbroken line) (nonempty : lines ≠ []) (rest : List Char) :
    Text.lines (joinLines lines ++ '\n' :: rest) = lines ++ Text.lines rest := by
  induction lines with
  | nil => contradiction
  | cons line others inductionHypothesis =>
    have head := unbroken line List.mem_cons_self
    cases others with
    | nil => rw [joinLines_singleton, lines_append_feed head, List.singleton_append]
    | cons next others =>
      have tail := inductionHypothesis
        (fun line inside => unbroken line (List.mem_cons_of_mem _ inside)) (by simp)
      rw [joinLines_cons_cons, List.append_assoc, List.cons_append, lines_append_feed head, tail]
      rfl

/-- A line with content and without indentation leaves no common indentation. -/
theorem commonIndentation_eq_zero {lines : List (List Char)} {line : List Char}
    (inside : line ∈ lines) (content : isBlankLine line = false) (flush : indentation line = 0) :
    commonIndentation lines = 0 := by
  have counted : 0 ∈ (lines.filter fun line => !isBlankLine line).map indentation :=
    List.mem_map.2 ⟨line, List.mem_filter.2 ⟨inside, by simp [content]⟩, flush⟩
  unfold commonIndentation
  cases least : ((lines.filter fun line => !isBlankLine line).map indentation).min? with
  | none =>
    rw [List.min?_eq_none_iff.1 least] at counted
    contradiction
  | some value =>
    have below := (List.min?_eq_some_iff.1 least).2 0 counted
    simpa using below

/-- Some line with content has no more indentation than all of them share. -/
theorem exists_indentation_eq {lines : List (List Char)} {line : List Char}
    (inside : line ∈ lines) (content : isBlankLine line = false) :
    ∃ least ∈ lines, isBlankLine least = false ∧ indentation least = commonIndentation lines := by
  have counted : indentation line ∈ (lines.filter fun line => !isBlankLine line).map indentation :=
    List.mem_map.2 ⟨line, List.mem_filter.2 ⟨inside, by simp [content]⟩, rfl⟩
  unfold commonIndentation
  cases least : ((lines.filter fun line => !isBlankLine line).map indentation).min? with
  | none =>
    rw [List.min?_eq_none_iff.1 least] at counted
    contradiction
  | some value =>
    obtain ⟨found, member, same⟩ := List.mem_map.1 (List.min?_eq_some_iff.1 least).1
    obtain ⟨member, shown⟩ := List.mem_filter.1 member
    exact ⟨found, member, by simpa using shown, same⟩

/-- A line without its indentation has none, and keeps its content. -/
theorem drop_indentation (line : List Char) (content : isBlankLine line = false) :
    isBlankLine (line.drop (indentation line)) = false ∧
      indentation (line.drop (indentation line)) = 0 := by
  have cut : line.drop (indentation line) = line.dropWhile isIndent := by
    have behind := @List.drop_left _ (line.takeWhile isIndent) (line.dropWhile isIndent)
    rwa [List.takeWhile_append_dropWhile] at behind
  rw [cut]
  constructor
  · cases left : isBlankLine (line.dropWhile isIndent) with
    | false => rfl
    | true =>
      have allLeft : ∀ character ∈ line.dropWhile isIndent, isIndent character = true :=
        List.all_eq_true.1 left
      have all : isBlankLine line = true := by
        rw [isBlankLine, List.all_eq_true]
        intro character inside
        by_cases indent : isIndent character = true
        · exact indent
        · exact allLeft character (Text.mem_dropWhile inside (by simpa using indent))
      rw [all] at content
      contradiction
  · cases rest : line.dropWhile isIndent with
    | nil => rfl
    | cons character others =>
      have head := Text.head_dropWhile (by rw [rest]; rfl)
      simp [indentation, head]

/-- Of a first line with nothing but blank lines behind it, trimming leaves at most
that line. -/
theorem length_trimEnds_le_one (first : List Char) {others : List (List Char)}
    (blank : ∀ line ∈ others, isBlankLine line = true) :
    (Text.trimEnds isBlankLine (first :: others)).length ≤ 1 := by
  cases content : isBlankLine first with
  | false =>
    have alone : Text.Trimmed isBlankLine [first] := ⟨by simp [content], by simp [content]⟩
    have left := Text.trimEnds_append [] _ (by simp) blank alone
    rw [List.nil_append, List.singleton_append] at left
    simp [left]
  | true =>
    have all : ∀ line ∈ first :: others, isBlankLine line = true := by
      intro line inside
      rcases List.mem_cons.1 inside with rfl | later
      · exact content
      · exact blank line later
    have nothing : Text.Trimmed isBlankLine ([] : List (List Char)) := ⟨by simp, by simp⟩
    have left := Text.trimEnds_append [] _ (by simp) all nothing
    rw [List.nil_append, List.nil_append] at left
    simp [left]

/-- Removing the common indentation settles unbroken lines. Where several are left,
some line behind the first has content. Then one of these had no more indentation
than was removed, and it is left without any. -/
theorem settled_dedentLines {lines : List (List Char)} (unbroken : ∀ line ∈ lines, Unbroken line) :
    Settled (dedentLines lines) := by
  cases lines with
  | nil =>
    exact ⟨by simp [dedentLines], Text.trimmed_trimEnds isBlankLine [], by simp [dedentLines]⟩
  | cons first others =>
    let common := commonIndentation others
    let shifted := first :: others.map (·.drop common)
    change Settled (Text.trimEnds isBlankLine shifted)
    refine ⟨?_, Text.trimmed_trimEnds isBlankLine shifted, ?_⟩
    · intro line inside
      rcases List.mem_cons.1 (Text.mem_of_mem_trimEnds inside) with rfl | later
      · exact unbroken _ List.mem_cons_self
      · obtain ⟨source, member, rfl⟩ := List.mem_map.1 later
        intro character here
        exact unbroken source (List.mem_cons_of_mem _ member) character (List.mem_of_mem_drop here)
    · intro several
      by_cases content : ∃ line ∈ others, isBlankLine line = false
      · obtain ⟨line, member, shown⟩ := content
        obtain ⟨least, leastMember, leastShown, same⟩ := exists_indentation_eq member shown
        obtain ⟨kept, flush⟩ := drop_indentation least leastShown
        have inside : least.drop (indentation least) ∈ shifted := by
          rw [same]
          exact List.mem_cons_of_mem _ (List.mem_map.2 ⟨least, leastMember, rfl⟩)
        exact commonIndentation_eq_zero (Text.mem_trimEnds inside kept) kept flush
      · have blank : ∀ line ∈ others.map (·.drop common), isBlankLine line = true := by
          intro line inside
          obtain ⟨source, member, rfl⟩ := List.mem_map.1 inside
          have sourceBlank : isBlankLine source = true := by
            cases shown : isBlankLine source with
            | true => rfl
            | false => exact (content ⟨source, member, shown⟩).elim
          rw [isBlankLine, List.all_eq_true] at sourceBlank ⊢
          intro character here
          exact sourceBlank character (List.mem_of_mem_drop here)
        have few : (Text.trimEnds isBlankLine shifted).length ≤ 1 :=
          length_trimEnds_le_one first blank
        omega

/-- The value of every block string consists of settled lines. -/
theorem exists_settled_value (raw : List Char) :
    ∃ lines, Settled lines ∧ value raw = joinLines lines :=
  ⟨_, settled_dedentLines fun _ inside => unbroken_of_mem_lines inside, rfl⟩

/-- Blank lines around settled lines are removed again, and nothing else. -/
theorem dedentLines_append {lines : List (List Char)} (settled : Settled lines)
    (flush : commonIndentation lines = 0) :
    dedentLines ([] :: lines ++ [[]]) = lines := by
  have blank : ∀ line ∈ [([] : List Char)], isBlankLine line = true := by simp [isBlankLine]
  have common : commonIndentation (lines ++ [[]]) = 0 := by
    rw [← flush]
    simp [commonIndentation, isBlankLine]
  have trimmed := Text.trimEnds_append [[]] [[]] blank blank settled.trimmed
  simpa [dedentLines, common] using trimmed

/-- Where no three quotes stand in front, a character is written as it is. -/
theorem escapeQuotes_cons {character : Char} {rest : List Char}
    (apart : ∀ others, character = '"' → rest = '"' :: '"' :: others → False) :
    escapeQuotes (character :: rest) = character :: escapeQuotes rest := by
  rw [escapeQuotes.eq_2]
  exact apart

/-- Two quotes in front of a text stand in its first part when the other part does
not begin with one. -/
theorem quotes_of_append {line rest tail : List Char} (apart : rest.head? ≠ some '"')
    (same : line ++ rest = '"' :: '"' :: tail) : ∃ others, line = '"' :: '"' :: others := by
  match line with
  | [] => simp_all
  | [first] => simp_all
  | first :: second :: others =>
    simp only [List.cons_append, List.cons.injEq] at same
    exact ⟨others, by rw [same.1, same.2.1]⟩

/-- Quotes never reach across a line feed. -/
theorem escapeQuotes_append_feed (line rest : List Char) :
    escapeQuotes (line ++ '\n' :: rest) = escapeQuotes line ++ '\n' :: escapeQuotes rest := by
  fun_induction escapeQuotes line with
  | case1 others inductionHypothesis => simp [escapeQuotes, inductionHypothesis]
  | case2 character others apart inductionHypothesis =>
    rw [List.cons_append, escapeQuotes_cons, inductionHypothesis, List.cons_append]
    intro tail quote same
    obtain ⟨more, rfl⟩ := quotes_of_append (by simp) same
    exact apart more quote rfl
  | case3 => exact escapeQuotes_cons (by simp)

/-- Escaping opens no line. -/
theorem unbroken_escapeQuotes {line : List Char} (unbroken : Unbroken line) :
    Unbroken (escapeQuotes line) := by
  fun_induction escapeQuotes line with
  | case1 others inductionHypothesis =>
    simp only [Unbroken, List.forall_mem_cons] at unbroken inductionHypothesis ⊢
    exact ⟨by decide, unbroken.1, unbroken.1, unbroken.1, inductionHypothesis unbroken.2.2.2⟩
  | case2 character others apart inductionHypothesis =>
    simp only [Unbroken, List.forall_mem_cons] at unbroken inductionHypothesis ⊢
    exact ⟨unbroken.1, inductionHypothesis unbroken.2⟩
  | case3 => exact unbroken

/-- A value is escaped line by line. -/
theorem escapeQuotes_joinLines (lines : List (List Char)) :
    escapeQuotes (joinLines lines) = joinLines (lines.map escapeQuotes) := by
  induction lines with
  | nil => rfl
  | cons line others inductionHypothesis =>
    cases others with
    | nil => simp
    | cons next others =>
      simp only [List.map_cons] at inductionHypothesis
      simp only [List.map_cons, joinLines_cons_cons, escapeQuotes_append_feed, inductionHypothesis]

/-- A value has as many lines when it is escaped. -/
theorem length_lines_escapeQuotes {lines : List (List Char)}
    (unbroken : ∀ line ∈ lines, Unbroken line) (nonempty : lines ≠ []) :
    (Text.lines (escapeQuotes (joinLines lines))).length = lines.length := by
  have escaped : ∀ line ∈ lines.map escapeQuotes, Unbroken line := by
    intro line inside
    obtain ⟨source, member, rfl⟩ := List.mem_map.1 inside
    exact unbroken_escapeQuotes (unbroken source member)
  rw [escapeQuotes_joinLines, lines_joinLines escaped (by simpa using nonempty), List.length_map]

/-- The line feed that a flag of the shape stands for. -/
def feedIf (broken : Bool) : List Char := if broken then ['\n'] else []

/-- A value whose end would run into the closing quotes gets a line feed there. -/
theorem shape_trailing {value : List Char}
    (ends : value.getLast? = some '"' ∨ value.getLast? = some '\\') :
    (shape value).trailing = true := by
  simp only [shape, Bool.or_eq_true, Bool.and_eq_true, beq_iff_eq, Bool.not_eq_true']
  cases ['\\', '"', '"', '"'].isSuffixOf (escapeQuotes value) with
  | true => exact .inl (.inr rfl)
  | false =>
    rcases ends with ends | ends
    · exact .inr (.inl ⟨ends, rfl⟩)
    · exact .inr (.inr ends)

/-- A line feed in front comes with one at the end. -/
theorem shape_trailing_of_leading {value : List Char} (leading : (shape value).leading = true) :
    (shape value).trailing = true := by
  simp only [shape, Bool.or_eq_true, Bool.and_eq_true] at leading ⊢
  rcases leading with ⟨multiline, -⟩ | forced
  · exact .inl multiline
  · exact .inl (.inl (.inr forced))

/-- A value of several lines gets a line feed in front. -/
theorem shape_leading_of_several (value : List Char)
    (several : (Text.lines (escapeQuotes value)).length ≠ 1) : (shape value).leading = true := by
  have single : ((Text.lines (escapeQuotes value)).length == 1) = false := by simpa using several
  simp [shape, single]

/-- A value of a single line that gets a line feed in front begins without
indentation. -/
theorem head_of_shape_leading {value : List Char}
    (single : (Text.lines (escapeQuotes value)).length = 1)
    (leading : (shape value).leading = true) :
    ∀ character, value.head? = some character → isIndent character = false := by
  intro character inFront
  have oneLine : ((Text.lines (escapeQuotes value)).length == 1) = true := by simpa using single
  simp only [shape, oneLine, inFront, Bool.not_true, Bool.false_and, Bool.or_false,
    Bool.and_eq_true] at leading
  simpa using leading.2

/-- A list that is not empty and has not several items has one. -/
theorem exists_eq_singleton {α : Type} {items : List α} (nonempty : items ≠ [])
    (few : ¬2 ≤ items.length) : ∃ item, items = [item] := by
  match items with
  | [] => contradiction
  | [item] => exact ⟨item, rfl⟩
  | first :: second :: others => simp at few

/-- A line that begins without indentation has none. -/
theorem indentation_eq_zero {line : List Char}
    (head : ∀ character, line.head? = some character → isIndent character = false) :
    indentation line = 0 := by
  cases line with
  | nil => rfl
  | cons character others => simp [indentation, head character rfl]

/-- The raw text inside a block string as it is written, quotes apart. -/
def spread (value : List Char) : List Char :=
  feedIf (shape value).leading ++ value ++ feedIf (shape value).trailing

/-- A value of settled lines is the value of its raw text as it is written. Where
both line feeds are written, the blank lines that they open are removed, and the
lines between share no indentation. Otherwise the value is one line and stays
behind the opening quotes. -/
theorem value_spread {lines : List (List Char)} (settled : Settled lines) :
    value (spread (joinLines lines)) = joinLines lines := by
  by_cases empty : lines = []
  · subst empty
    rfl
  · have counted := length_lines_escapeQuotes settled.unbroken empty
    unfold spread
    cases leading : (shape (joinLines lines)).leading with
    | true =>
      have flush : commonIndentation lines = 0 := by
        by_cases several : 2 ≤ lines.length
        · exact settled.flush several
        · obtain ⟨line, rfl⟩ := exists_eq_singleton empty several
          apply commonIndentation_eq_zero List.mem_cons_self (settled.trimmed.head line rfl)
          exact indentation_eq_zero (by
            simpa using head_of_shape_leading (by simpa using counted) leading)
      simp only [shape_trailing_of_leading leading, feedIf, if_true, value]
      have cut : Text.lines (['\n'] ++ joinLines lines ++ ['\n']) = [] :: lines ++ [[]] := by
        have feed := @lines_append_feed [] (by simp [Unbroken]) (joinLines lines ++ ['\n'])
        rw [List.nil_append] at feed
        rw [List.append_assoc, List.singleton_append, feed,
          lines_joinLines_append_feed settled.unbroken empty]
        rfl
      rw [cut, dedentLines_append settled flush]
    | false =>
      have few : ¬2 ≤ lines.length := by
        intro several
        have led := shape_leading_of_several (joinLines lines) (by omega)
        rw [leading] at led
        contradiction
      obtain ⟨line, rfl⟩ := exists_eq_singleton empty few
      have alone : Text.trimEnds isBlankLine ([line] ++ [[]]) = [line] :=
        Text.trimEnds_append [] [[]] (by simp) (by simp [isBlankLine]) settled.trimmed
      have unbroken := settled.unbroken line List.mem_cons_self
      rw [joinLines_singleton]
      cases (shape line).trailing with
      | true =>
        have cut : Text.lines (line ++ ['\n']) = [line, []] := lines_append_feed unbroken []
        have dedented : dedentLines [line, []] = [line] := by
          simpa [dedentLines] using alone
        simp [feedIf, value, cut, dedented]
      | false =>
        have bare : Text.trimEnds isBlankLine [line] = [line] := by
          simpa using Text.trimEnds_append [] [] (by simp) (by simp) settled.trimmed
        simp [feedIf, value, lines_of_unbroken unbroken, dedentLines,
          bare]

/-- Text behind an escaped value opens no three quotes with it, unless the value
ends in a quote or a backslash and the text begins with a quote. -/
def Apart (value tail : List Char) : Prop :=
  tail.head? = some '"' → value.getLast? ≠ some '"' ∧ value.getLast? ≠ some '\\'

/-- What is apart from a value is apart from its end. -/
theorem Apart.tail {character : Char} {value tail : List Char}
    (apart : Apart (character :: value) tail) : Apart value tail := by
  intro inFront
  obtain ⟨notQuote, notBackslash⟩ := apart inFront
  cases value with
  | nil => simp
  | cons next others => simpa [List.getLast?_cons_cons] using And.intro notQuote notBackslash

/-- A quote in front of an escaped value and its tail stands in front of one of
them. In the value it does not open three quotes, since these are escaped. -/
theorem quote_of_escapeQuotes_append {value tail more : List Char}
    (same : escapeQuotes value ++ tail = '"' :: more) :
    (value = [] ∧ tail.head? = some '"') ∨
      ∃ others, value = '"' :: others ∧ more = escapeQuotes others ++ tail ∧
        ∀ rest, others ≠ '"' :: '"' :: rest := by
  unfold escapeQuotes at same
  split at same
  · simp at same
  · rename_i character others plain
    obtain ⟨rfl, rfl⟩ := List.cons.inj same
    exact .inr ⟨others, rfl, rfl, fun rest triple => plain rest rfl triple⟩
  · rw [List.nil_append] at same
    exact .inl ⟨rfl, by rw [same]; rfl⟩

/-- Where no quotes close the string and no escape begins, a character is read as it
is. -/
theorem readRaw_cons {character : Char} {rest : List Char}
    (open' : ∀ more, character = '"' → rest = '"' :: '"' :: more → False)
    (plain : ∀ more, character = '\\' → rest = '"' :: '"' :: '"' :: more → False) :
    readRaw (character :: rest) =
      (readRaw rest).map fun (raw, remaining) => (character :: raw, remaining) := by
  rw [readRaw.eq_4]
  · exact open'
  · exact plain

/-- An escaped value is read as itself, and reading goes on behind it. No quotes of
the value are taken for closing ones, because three in a row are escaped and the
last ones do not meet those of the tail. -/
theorem readRaw_escapeQuotes {value tail : List Char} (apart : Apart value tail) :
    readRaw (escapeQuotes value ++ tail) =
      (readRaw tail).map fun (raw, remaining) => (value ++ raw, remaining) := by
  fun_induction escapeQuotes value with
  | case1 others inductionHypothesis =>
    simp only [List.cons_append, readRaw, inductionHypothesis apart.tail.tail.tail]
    cases readRaw tail <;> rfl
  | case2 character others plain inductionHypothesis =>
    have open' : ∀ more, character = '"' → escapeQuotes others ++ tail = '"' :: '"' :: more →
        False := by
      intro more quote same
      subst quote
      rcases quote_of_escapeQuotes_append same with ⟨rfl, head⟩ | ⟨second, rfl, same, -⟩
      · exact (apart head).1 rfl
      · rcases quote_of_escapeQuotes_append same.symm with ⟨rfl, head⟩ | ⟨third, rfl, -, -⟩
        · exact (apart head).1 rfl
        · exact plain third rfl rfl
    have unescaped : ∀ more, character = '\\' →
        escapeQuotes others ++ tail = '"' :: '"' :: '"' :: more → False := by
      intro more backslash same
      subst backslash
      rcases quote_of_escapeQuotes_append same with ⟨rfl, head⟩ | ⟨second, rfl, same, few⟩
      · exact (apart head).2 rfl
      · rcases quote_of_escapeQuotes_append same.symm with ⟨rfl, head⟩ | ⟨third, rfl, same, -⟩
        · exact (apart head).1 rfl
        · rcases quote_of_escapeQuotes_append same.symm with ⟨rfl, head⟩ | ⟨fourth, rfl, -, -⟩
          · exact (apart head).1 rfl
          · exact few fourth rfl
    rw [List.cons_append, readRaw_cons open' unescaped, inductionHypothesis apart.tail]
    cases readRaw tail <;> rfl
  | case3 =>
    rw [List.nil_append]
    cases readRaw tail <;> rfl

/-- The line feed in front of the closing quotes keeps a value apart from them. -/
theorem apart_closing (value rest : List Char) :
    Apart value (feedIf (shape value).trailing ++ ('"' :: '"' :: '"' :: rest)) := by
  intro inFront
  constructor
  · intro ends
    simp [shape_trailing (.inl ends), feedIf] at inFront
  · intro ends
    simp [shape_trailing (.inr ends), feedIf] at inFront

/-- A line feed is read as it is. -/
theorem readRaw_feedIf_append (broken : Bool) (rest : List Char) :
    readRaw (feedIf broken ++ rest) =
      (readRaw rest).map fun (raw, remaining) => (feedIf broken ++ raw, remaining) := by
  cases broken with
  | true => simp [feedIf, readRaw]
  | false =>
    simp only [feedIf, Bool.false_eq_true, if_false, List.nil_append]
    cases readRaw rest <;> rfl

/-- What a value is written as behind the opening quotes is read as the raw text with
its line feeds. -/
theorem readRaw_written (value rest : List Char) :
    readRaw (feedIf (shape value).leading ++ (escapeQuotes value ++
      (feedIf (shape value).trailing ++ ('"' :: '"' :: '"' :: rest)))) =
      .ok (spread value, rest) := by
  rw [readRaw_feedIf_append, readRaw_escapeQuotes (apart_closing value rest),
    readRaw_feedIf_append]
  simp [readRaw, Except.map, spread]

/-- Settled lines that were written as a block string are read again, behind the
opening quotes and whatever follows the closing ones. -/
theorem read_encode {lines : List (List Char)} (settled : Settled lines) (rest : List Char) :
    ∃ body, encode (joinLines lines) = '"' :: '"' :: '"' :: body ∧
      read (body ++ rest) = .ok (joinLines lines, rest) := by
  refine ⟨feedIf (shape (joinLines lines)).leading ++ (escapeQuotes (joinLines lines) ++
    (feedIf (shape (joinLines lines)).trailing ++ ['"', '"', '"'])), ?_, ?_⟩
  · simp [encode, feedIf]
  · have written := readRaw_written (joinLines lines) rest
    simp only [List.append_assoc, List.cons_append, List.nil_append] at written ⊢
    rw [read, written]
    simp [Except.map, value_spread settled]

end GraphQLCanon.Lexical.BlockString
