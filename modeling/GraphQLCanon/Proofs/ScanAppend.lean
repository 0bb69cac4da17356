import GraphQLCanon.Proofs.Written

/-!
# Scanning one text behind another

A token that was read from a text is read from it whatever stands behind the text, unless
the token reaches to the end of the text: then what follows must not prolong it. So a text
that was scanned without a fault is scanned in the same way in front of a line feed, and
the scan goes on with the text behind that. The line feed ends a last comment and
prolongs no token.
-/

namespace GraphQLCanon.Lexical

namespace QuotedString

variable {source : List Char} (behind : List Char)

/-- The digits of an escape in braces that is closed are those in front of anything more. -/
theorem bracedEscape?_before {result : Char × Nat} (denoted : bracedEscape? source = some result) :
    bracedEscape? (source ++ behind) = some result := by
  have looked : (source ++ behind).take 9 = source.take 9 ++ behind.take (9 - source.length) :=
    List.take_append
  unfold bracedEscape? at denoted ⊢
  dsimp only at denoted ⊢
  split at denoted
  · rename_i closed
    have inside : (bracedDigits source).length < (source.take 9).length := by
      apply Nat.lt_of_not_le
      intro past
      rw [List.drop_eq_nil_of_le past] at closed
      cases closed
    have digits : bracedDigits (source ++ behind) = bracedDigits source := by
      unfold bracedDigits at inside ⊢
      rw [looked, List.takeWhile_append, if_neg (Nat.ne_of_lt inside)]
    have shut : (((source ++ behind).take 9).drop (bracedDigits source).length).head? =
        some '}' := by
      rw [looked, List.drop_append_of_le_length (Nat.le_of_lt inside), List.head?_append, closed]
      rfl
    rw [digits, shut]
    exact denoted
  · contradiction

/-- A code unit is denoted by the first four characters, whatever stands behind them. -/
theorem codeUnit?_before {unit : Nat} (denoted : codeUnit? source = some unit) :
    4 ≤ source.length ∧ codeUnit? (source ++ behind) = some unit := by
  unfold codeUnit? at denoted ⊢
  dsimp only at denoted ⊢
  split at denoted
  · rename_i four
    have long : 4 ≤ source.length := by
      rw [List.length_take] at four
      omega
    rw [List.take_append_of_le_length long, if_pos four]
    exact ⟨long, denoted⟩
  · contradiction

/-- An escape by code units is the same in front of anything more. -/
theorem fixedEscape?_before {result : Char × Nat} (denoted : fixedEscape? source = some result) :
    fixedEscape? (source ++ behind) = some result := by
  unfold fixedEscape? at denoted ⊢
  obtain ⟨unit, leading, denoted⟩ := Option.bind_eq_some_iff.1 denoted
  obtain ⟨long, again⟩ := codeUnit?_before behind leading
  refine Option.bind_eq_some_iff.2 ⟨unit, again, ?_⟩
  cases plain : characterOf? unit with
  | some character =>
    simp only [plain] at denoted ⊢
    exact denoted
  | none =>
    simp only [plain] at denoted ⊢
    rw [List.drop_append_of_le_length long]
    split at denoted
    · rename_i second dropped
      obtain ⟨trailing, closes, denoted⟩ := Option.bind_eq_some_iff.1 denoted
      rw [dropped]
      exact Option.bind_eq_some_iff.2 ⟨trailing, (codeUnit?_before behind closes).2, denoted⟩
    · contradiction

/-- An escape that was read is the same in front of anything more. -/
theorem readEscape_before {result : Char × Nat} (read : readEscape source = .ok result) :
    readEscape (source ++ behind) = .ok result := by
  unfold readEscape at read
  split at read
  · contradiction
  · rename_i inner
    cases denoted : bracedEscape? inner with
    | none => simp [denoted] at read
    | some parts =>
      simp only [denoted] at read
      simp only [List.cons_append, readEscape, bracedEscape?_before behind denoted]
      exact read
  · rename_i inner unbraced
    cases denoted : fixedEscape? inner with
    | none => simp [denoted] at read
    | some parts =>
      simp only [denoted] at read
      have again := fixedEscape?_before behind denoted
      cases inner with
      | nil => contradiction
      | cons first others =>
        have noBrace : first ≠ '{' := by
          rintro rfl
          exact unbraced others rfl
        rw [List.cons_append] at again
        simpa [readEscape, noBrace, again] using read
  · rename_i letter rest _ plain
    have noUnit : letter ≠ 'u' := by
      rintro rfl
      exact plain rfl
    simpa [readEscape, noUnit] using read

/-- A quoted string that was read is the same in front of anything more. -/
theorem readAfter_before {taken : Nat} {values remaining : List Char}
    (read : readAfter taken source = .ok (values, remaining)) :
    readAfter taken (source ++ behind) = .ok (values, remaining ++ behind) := by
  induction source generalizing taken values with
  | nil => cases taken <;> contradiction
  | cons character rest inductionHypothesis =>
    cases taken with
    | succ taken => exact inductionHypothesis read
    | zero =>
      rw [List.cons_append]
      unfold readAfter at read ⊢
      by_cases quote : character = '"'
      · rw [if_pos quote] at read ⊢
        cases read
        rfl
      rw [if_neg quote] at read ⊢
      by_cases broken : Text.isLineBreak character = true
      · rw [if_pos broken] at read
        contradiction
      rw [if_neg broken] at read ⊢
      by_cases escaped : character = '\\'
      · rw [if_pos escaped] at read ⊢
        cases denoted : readEscape rest with
        | error cause => simp [denoted] at read
        | ok escape =>
          rw [readEscape_before behind denoted]
          cases inner : readAfter escape.2 rest with
          | error fault => simp [denoted, inner, Except.map] at read
          | ok parts =>
            simp only [denoted, inner, Except.map, Except.ok.injEq, Prod.mk.injEq] at read
            obtain ⟨rfl, rfl⟩ := read
            simp only [inductionHypothesis inner, Except.map]
      · rw [if_neg escaped] at read ⊢
        cases inner : readAfter 0 rest with
        | error fault => simp [inner, Except.map] at read
        | ok parts =>
          simp only [inner, Except.map, Except.ok.injEq, Prod.mk.injEq] at read
          obtain ⟨rfl, rfl⟩ := read
          simp only [inductionHypothesis inner, Except.map]

end QuotedString

section Tokens

variable {source remaining : List Char} (behind : List Char)

/-- The raw text of a block string that was read is the same in front of anything more. -/
theorem BlockString.readRaw_before {raw : List Char}
    (read : BlockString.readRaw source = .ok (raw, remaining)) :
    3 ≤ source.length ∧
      BlockString.readRaw (source ++ behind) = .ok (raw, remaining ++ behind) := by
  fun_induction BlockString.readRaw source generalizing raw with
  | case1 => contradiction
  | case2 rest =>
    cases read
    exact ⟨by simp, by simp [BlockString.readRaw]⟩
  | case3 rest inductionHypothesis =>
    cases inner : BlockString.readRaw rest with
    | error fault => simp [inner, Except.map] at read
    | ok parts =>
      simp only [inner, Except.map, Except.ok.injEq, Prod.mk.injEq] at read
      obtain ⟨rfl, rfl⟩ := read
      refine ⟨by simp, ?_⟩
      simp only [List.cons_append, BlockString.readRaw, (inductionHypothesis inner).2, Except.map]
  | case4 character rest notClosed notEscaped inductionHypothesis =>
    cases inner : BlockString.readRaw rest with
    | error fault => simp [inner, Except.map] at read
    | ok parts =>
      simp only [inner, Except.map, Except.ok.injEq, Prod.mk.injEq] at read
      obtain ⟨rfl, rfl⟩ := read
      obtain ⟨long, again⟩ := inductionHypothesis inner
      -- Three more characters are there, so what the first four of them write is not changed.
      obtain ⟨second, third, fourth, others, rfl⟩ :
          ∃ second third fourth others, rest = second :: third :: fourth :: others := by
        rcases rest with _ | ⟨second, _ | ⟨third, _ | ⟨fourth, others⟩⟩⟩
        · simp at long
        · simp at long
        · simp at long
        · exact ⟨second, third, fourth, others, rfl⟩
      refine ⟨by simp, ?_⟩
      simp only [List.cons_append] at again ⊢
      rw [BlockString.readRaw, again]
      · rfl
      · intro rest opened shape
        simp only [List.cons.injEq] at shape
        exact notClosed (fourth :: others) opened (by simp [shape])
      · intro rest opened shape
        simp only [List.cons.injEq] at shape
        exact notEscaped others opened (by simp [shape])

/-- A string of either form that was read is the same in front of anything more. Behind an
empty string at the end, no third quote may stand. -/
theorem readString_before {token : Token} (read : readString source = .ok (token, remaining))
    (ends : remaining = [] → Delimited behind) :
    readString (source ++ behind) = .ok (token, remaining ++ behind) := by
  unfold readString at read
  split at read
  · rename_i inner
    cases found : BlockString.readRaw inner with
    | error fault => simp [BlockString.read, found, Except.map] at read
    | ok parts =>
      simp only [BlockString.read, found, Except.map, Except.ok.injEq, Prod.mk.injEq] at read
      obtain ⟨rfl, rfl⟩ := read
      simp only [List.cons_append, readString, BlockString.read,
        (BlockString.readRaw_before behind found).2, Except.map]
  · rename_i single
    cases found : QuotedString.read source with
    | error fault => simp [found, Except.map] at read
    | ok parts =>
      simp only [found, Except.map, Except.ok.injEq, Prod.mk.injEq] at read
      obtain ⟨rfl, rfl⟩ := read
      have again : QuotedString.read (source ++ behind) = .ok (parts.1, parts.2 ++ behind) :=
        QuotedString.readAfter_before behind found
      unfold readString
      split
      · rename_i inner opened
        exfalso
        rcases source with _ | ⟨first, _ | ⟨second, others⟩⟩
        · contradiction
        · obtain ⟨rfl, shut⟩ := List.cons.inj opened
          cases found
          have delimited := ends rfl
          have quoted : behind = '"' :: inner := shut
          simp [quoted, delimits] at delimited
        · obtain ⟨one, opened⟩ := List.cons.inj opened
          obtain ⟨two, -⟩ := List.cons.inj opened
          exact single others (by rw [one, two])
      · simp only [again, Except.map]

/-- A token that was read is the same in front of anything more, if that does not prolong
it where nothing is left. -/
theorem readToken_before {first : Char} {token : Token}
    (read : readToken first source = .ok (token, remaining))
    (ends : remaining = [] → Delimited behind) :
    readToken first (source ++ behind) = .ok (token, remaining ++ behind) := by
  unfold readToken at read ⊢
  split at read
  · cases read
    rfl
  · by_cases point : first = '.'
    · rw [if_pos point] at read ⊢
      split at read
      · cases read
        rfl
      · contradiction
    rw [if_neg point] at read ⊢
    by_cases quote : first = '"'
    · rw [if_pos quote] at read ⊢
      exact readString_before behind read ends
    rw [if_neg quote] at read ⊢
    by_cases number : (first.isDigit || first == '-') = true
    · rw [if_pos number] at read ⊢
      exact readNumber_before read fun nothing => (ends nothing).leaves_number
    rw [if_neg number] at read ⊢
    by_cases name : isNameStart first = true
    · rw [if_pos name] at read ⊢
      cases read
      have leaves : Leaves isNameContinue (source.dropWhile isNameContinue ++ behind) := by
        cases left : source.dropWhile isNameContinue with
        | nil => exact (ends left).leaves_name
        | cons next others =>
          have own := leaves_dropWhile isNameContinue source
          rw [left] at own
          simpa using own
      have inside := forall_mem_takeWhile isNameContinue source
      have whole : source ++ behind = source.takeWhile isNameContinue ++
          (source.dropWhile isNameContinue ++ behind) := by
        rw [← List.append_assoc, List.takeWhile_append_dropWhile]
      rw [whole, takeWhile_append_of_leaves inside leaves,
        dropWhile_append_of_leaves inside leaves]
    · rw [if_neg name] at read
      split at read <;> contradiction

end Tokens

section Scans

/-- What is left behind separators and comments stands in front of anything more. -/
theorem skipIgnored_before {source rest : List Char} {first : Char} {inComment : Bool}
    (skipped : skipIgnored inComment source = first :: rest) (behind : List Char) :
    skipIgnored inComment (source ++ behind) = first :: (rest ++ behind) := by
  induction source generalizing inComment with
  | nil => cases skipped
  | cons character others inductionHypothesis =>
    rw [List.cons_append]
    rw [skipIgnored] at skipped ⊢
    split at skipped
    · rename_i passed
      rw [if_pos passed]
      exact inductionHypothesis skipped
    · rename_i notPassed
      rw [if_neg notPassed]
      split at skipped
      · rename_i opens
        rw [if_pos opens]
        exact inductionHypothesis skipped
      · rename_i noComment
        rw [if_neg noComment]
        split at skipped
        · rename_i separator
          rw [if_pos separator]
          exact inductionHypothesis skipped
        · rename_i noSeparator
          rw [if_neg noSeparator]
          cases skipped
          rfl

/-- Behind separators and comments only, a line feed ends a comment that is open. -/
theorem skipIgnored_line {source : List Char} {inComment : Bool}
    (skipped : skipIgnored inComment source = []) (behind : List Char) :
    skipIgnored inComment (source ++ '\n' :: behind) = skipIgnored false behind := by
  induction source generalizing inComment with
  | nil => simp [skipIgnored, Text.isLineBreak, isSeparator]
  | cons character others inductionHypothesis =>
    rw [List.cons_append]
    rw [skipIgnored] at skipped ⊢
    split at skipped
    · rename_i passed
      rw [if_pos passed]
      exact inductionHypothesis skipped
    · rename_i notPassed
      rw [if_neg notPassed]
      split at skipped
      · rename_i opens
        rw [if_pos opens]
        exact inductionHypothesis skipped
      · rename_i noComment
        rw [if_neg noComment]
        split at skipped
        · rename_i separator
          rw [if_pos separator]
          exact inductionHypothesis skipped
        · contradiction

/-- A lexeme of a text in front of another text. -/
def Lexeme.before (lexeme : Lexeme) (behind : List Char) : Lexeme :=
  { lexeme with source := lexeme.source ++ behind }

/-- A text that is scanned without a fault is scanned in the same way in front of a line
feed, and the scan goes on behind it. -/
theorem scan_line {source : List Char} (faultless : (scan source).fault = none)
    (behind : List Char) :
    scan (source ++ '\n' :: behind) =
      ⟨(scan source).lexemes.map (·.before ('\n' :: behind)) ++ (scan behind).lexemes,
        (scan behind).fault⟩ := by
  fun_induction scan source with
  | case1 source skipped =>
    exact scan_congr (skipIgnored_line skipped behind)
  | case2 source first rest skipped fault read => contradiction
  | case3 source first rest skipped token remaining read others inductionHypothesis =>
    have delimited : remaining = [] → Delimited ('\n' :: behind) := fun _ => by simp; decide
    have onward := scan_of_ok (skipIgnored_before skipped ('\n' :: behind))
      (readToken_before ('\n' :: behind) read delimited)
    rw [onward, inductionHypothesis faultless]
    rfl

end Scans

end GraphQLCanon.Lexical
