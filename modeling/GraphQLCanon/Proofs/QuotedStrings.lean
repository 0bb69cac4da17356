import GraphQLCanon.Lexical.QuotedString

/-!
# Quoted strings read back

Every text can be written as a quoted string, and reading the string gives the
text again. Each character is written by itself: as it is, by a short escape, or
by a code unit of four digits, and reading takes exactly these characters off
the front of the source.
-/

namespace GraphQLCanon.Lexical.QuotedString

/-- Characters that an escape has taken are passed over. -/
theorem readAfter_append (taken rest : List Char) :
    readAfter taken.length (taken ++ rest) = readAfter 0 rest := by
  induction taken with
  | nil => rfl
  | cons character others inductionHypothesis => exact inductionHypothesis

/-- Reading an escape gives the character that it denotes and goes on behind it. -/
theorem readAfter_escape {taken : List Char} {value : Char} (rest : List Char)
    (denoted : readEscape (taken ++ rest) = .ok (value, taken.length)) :
    readAfter 0 ('\\' :: (taken ++ rest)) =
      (readAfter 0 rest).map fun (values, remaining) => (value :: values, remaining) := by
  rw [readAfter]
  simp [Text.isLineBreak, denoted, readAfter_append]

/-- The short escapes are read by their letter. -/
theorem readEscape_short {letter value : Char} (rest : List Char)
    (short : shortEscape? letter = some value) :
    readEscape ([letter] ++ rest) = .ok (value, 1) := by
  have plain : letter ≠ 'u' := by
    rintro rfl
    simp [shortEscape?] at short
  unfold readEscape
  split <;> simp_all

/-- A short escape is read as the character that it denotes. -/
theorem readAfter_short {letter value : Char} (rest : List Char)
    (short : shortEscape? letter = some value) :
    readAfter 0 (['\\', letter] ++ rest) =
      (readAfter 0 rest).map fun (values, remaining) => (value :: values, remaining) :=
  readAfter_escape rest (readEscape_short rest short)

/-- Control characters are written with four digits that denote them, the first of
which is no brace. -/
theorem hexDigits_control : ∀ code < 0xA0, (hexDigits 4 code).length = 4 ∧
    (hexDigits 4 code).head? ≠ some '{' ∧ hexValue? (hexDigits 4 code) = some code := by
  decide +kernel

/-- The code point of a character denotes it. -/
theorem characterOf?_toNat (character : Char) :
    characterOf? character.toNat = some character := by
  have valid : character.toNat.isValidChar := character.valid
  simp [characterOf?, valid]

/-- A control character is read from its code unit. -/
theorem readEscape_control {character : Char} (control : character.toNat < 0xA0)
    (rest : List Char) :
    readEscape ('u' :: hexDigits 4 character.toNat ++ rest) = .ok (character, 5) := by
  obtain ⟨length, unbraced, denoted⟩ := hexDigits_control character.toNat control
  have unit : codeUnit? (hexDigits 4 character.toNat ++ rest) = some character.toNat := by
    simp [codeUnit?, length, denoted]
  have fixed : fixedEscape? (hexDigits 4 character.toNat ++ rest) = some (character, 4) := by
    simp [fixedEscape?, unit, characterOf?_toNat]
  cases digits : hexDigits 4 character.toNat with
  | nil => simp [digits] at length
  | cons first others =>
    rw [digits] at unbraced fixed
    simp only [List.cons_append] at fixed ⊢
    unfold readEscape
    split
    · contradiction
    · rename_i same
      simp_all
    · rename_i same
      obtain ⟨-, rfl⟩ := List.cons.inj same
      rw [fixed]
    · rename_i plain same
      exact (plain (List.cons.inj same).1.symm).elim

/-- A written character is read as itself, and reading goes on behind it. -/
theorem readAfter_escape_append (character : Char) (rest : List Char) :
    readAfter 0 (escape character ++ rest) =
      (readAfter 0 rest).map fun (values, remaining) => (character :: values, remaining) := by
  unfold escape
  iterate 7
    split
    · rename_i same
      subst same
      exact readAfter_short rest rfl
  split
  · rename_i control
    have below : character.toNat < 0xA0 := by omega
    have digits := (hexDigits_control character.toNat below).1
    have width : ('u' :: hexDigits 4 character.toNat).length = 5 := by simp [digits]
    exact readAfter_escape rest (by rw [width]; exact readEscape_control below rest)
  · rename_i notQuote notBackslash _ _ notFeed _ notReturn _
    rw [List.singleton_append, readAfter]
    simp [notQuote, notBackslash, Text.isLineBreak, notFeed, notReturn]

/-- A text that was written as a quoted string is read again, behind the opening
quote and whatever follows the closing one. -/
theorem readAfter_flatMap_escape (value rest : List Char) :
    readAfter 0 (value.flatMap escape ++ '"' :: rest) = .ok (value, rest) := by
  induction value with
  | nil => simp [readAfter]
  | cons character others inductionHypothesis =>
    rw [List.flatMap_cons, List.append_assoc, readAfter_escape_append, inductionHypothesis]
    rfl

/-- No written character begins with a double quote. -/
theorem head_escape (character : Char) :
    ∃ first others, escape character = first :: others ∧ first ≠ '"' := by
  unfold escape
  iterate 8
    split
    · exact ⟨_, _, rfl, by decide⟩
  rename_i notQuote _ _ _ _ _ _ _
  exact ⟨_, _, rfl, notQuote⟩

end GraphQLCanon.Lexical.QuotedString
