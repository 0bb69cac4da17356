import GraphQLCanon.Proofs.Spelling

/-!
# Characters of written tokens

Which characters stand in the spelling of a token. Numbers are written with digits,
signs, a point and exponent marks, quoted strings without any line break, and block
strings with line feeds only. So no token is written with a carriage return, whatever
breaks the source had.
-/

namespace GraphQLCanon.Lexical

/-- The characters that numbers are written with. -/
def isNumberPart (character : Char) : Bool :=
  character.isDigit || ['-', '+', '.', 'e', 'E'].contains character

section Numbers

variable {source remaining : List Char}

/-- Digits are written with parts of numbers. -/
theorem isNumberPart_of_readDigits {digits : List Char}
    (read : readDigits source = .ok (digits, remaining)) :
    ∀ character ∈ digits, isNumberPart character = true := by
  intro character inside
  simp [isNumberPart, isDigit_of_readDigits read character inside]

/-- The integer part is written with parts of numbers. -/
theorem isNumberPart_of_readIntegerPart {whole : List Char}
    (read : readIntegerPart source = .ok (whole, remaining)) :
    ∀ character ∈ whole, isNumberPart character = true := by
  unfold readIntegerPart at read
  split at read
  · split at read
    · cases read
      exact List.forall_mem_singleton.2 (by decide)
    · split at read
      · contradiction
      · cases read
        exact List.forall_mem_singleton.2 (by decide)
  · exact isNumberPart_of_readDigits read

/-- A fraction is written with parts of numbers. -/
theorem isNumberPart_of_readFraction {fraction : List Char}
    (read : readFraction source = .ok (fraction, remaining)) :
    ∀ character ∈ fraction, isNumberPart character = true := by
  unfold readFraction at read
  split at read
  · rename_i rest
    cases found : readDigits rest with
    | error fault => simp [found, bind, Except.bind] at read
    | ok parts =>
      simp only [found, bind, Except.bind, pure, Except.pure, Except.ok.injEq,
        Prod.mk.injEq] at read
      obtain ⟨rfl, rfl⟩ := read
      exact List.forall_mem_cons.2 ⟨by decide, isNumberPart_of_readDigits found⟩
  · cases read
    simp

/-- The sign of an exponent is a part of a number. -/
theorem isNumberPart_of_splitExponentSign (source : List Char) :
    ∀ character ∈ (splitExponentSign source).1, isNumberPart character = true := by
  unfold splitExponentSign
  split <;> simp [isNumberPart]

/-- An exponent is written with parts of numbers. -/
theorem isNumberPart_of_readExponent {exponent : List Char}
    (read : readExponent source = .ok (exponent, remaining)) :
    ∀ character ∈ exponent, isNumberPart character = true := by
  unfold readExponent at read
  split at read
  · cases read
    simp
  · rename_i mark rest
    split at read
    · rename_i marked
      cases found : readDigits (splitExponentSign rest).2 with
      | error fault => simp [found, bind, Except.bind] at read
      | ok parts =>
        simp only [found, bind, Except.bind, pure, Except.pure, Except.ok.injEq,
          Prod.mk.injEq] at read
        obtain ⟨rfl, rfl⟩ := read
        rw [List.cons_append, List.forall_mem_cons, List.forall_mem_append]
        refine ⟨?_, isNumberPart_of_splitExponentSign rest, isNumberPart_of_readDigits found⟩
        rcases marked with rfl | rfl <;> decide
    · cases read
      simp

/-- The minus sign is a part of a number. -/
theorem isNumberPart_of_splitMinus (source : List Char) :
    ∀ character ∈ (splitMinus source).1, isNumberPart character = true := by
  unfold splitMinus
  split <;> simp [isNumberPart]

/-- A number is written with digits, signs, a point and exponent marks. -/
theorem isNumberPart_of_readNumber {token : Token}
    (read : readNumber source = .ok (token, remaining)) :
    ∀ character ∈ token.spelling, isNumberPart character = true := by
  unfold readNumber at read
  cases foundWhole : readIntegerPart (splitMinus source).2 with
  | error fault => simp [foundWhole, bind, Except.bind] at read
  | ok whole =>
    cases foundFraction : readFraction whole.2 with
    | error fault => simp [foundWhole, foundFraction, bind, Except.bind] at read
    | ok fraction =>
      cases foundExponent : readExponent fraction.2 with
      | error fault => simp [foundWhole, foundFraction, foundExponent, bind, Except.bind] at read
      | ok exponent =>
        simp only [foundWhole, foundFraction, foundExponent, bind, Except.bind] at read
        split at read
        · contradiction
        · cases read
          have parts : ∀ character ∈ (splitMinus source).1 ++ whole.1 ++ fraction.1 ++ exponent.1,
              isNumberPart character = true := by
            simp only [List.forall_mem_append]
            exact ⟨⟨⟨isNumberPart_of_splitMinus source,
              isNumberPart_of_readIntegerPart foundWhole⟩,
              isNumberPart_of_readFraction foundFraction⟩,
              isNumberPart_of_readExponent foundExponent⟩
          unfold numberToken
          dsimp only
          split <;> simpa [Token.spelling] using parts

end Numbers

section Strings

/-- The digits of a control character are no line breaks. -/
theorem unbroken_hexDigits : ∀ code < 0xA0,
    (hexDigits 4 code).any Text.isLineBreak = false := by
  decide +kernel

/-- No character is written with a line break in a quoted string. -/
theorem unbroken_escape (character : Char) :
    ∀ other ∈ QuotedString.escape character, Text.isLineBreak other = false := by
  unfold QuotedString.escape
  iterate 7
    split
    · exact List.forall_mem_cons.2 ⟨by decide, List.forall_mem_singleton.2 (by decide)⟩
  split
  · rename_i control
    have digits := unbroken_hexDigits character.toNat (by omega)
    simp only [List.any_eq_false, Bool.not_eq_true] at digits
    exact List.forall_mem_cons.2 ⟨by decide, List.forall_mem_cons.2 ⟨by decide, digits⟩⟩
  · rename_i notFeed _ notReturn _
    simp [Text.isLineBreak, notFeed, notReturn]

/-- A quoted string stands on one line. -/
theorem unbroken_encode (value : List Char) :
    ∀ character ∈ QuotedString.encode value, Text.isLineBreak character = false := by
  intro character inside
  simp only [QuotedString.encode, List.cons_append, List.mem_cons, List.mem_append,
    List.mem_flatMap, List.not_mem_nil, or_false] at inside
  rcases inside with rfl | ⟨source, -, written⟩ | rfl
  · decide
  · exact unbroken_escape source character written
  · decide

/-- The characters of joined lines are line feeds and those of the lines. -/
theorem mem_joinLines {lines : List (List Char)} {character : Char}
    (inside : character ∈ BlockString.joinLines lines) :
    character = '\n' ∨ ∃ line ∈ lines, character ∈ line := by
  induction lines with
  | nil => simp [BlockString.joinLines] at inside
  | cons line others inductionHypothesis =>
    cases others with
    | nil =>
      rw [BlockString.joinLines_singleton] at inside
      exact .inr ⟨line, List.mem_cons_self, inside⟩
    | cons next others =>
      rw [BlockString.joinLines_cons_cons, List.mem_append, List.mem_cons] at inside
      rcases inside with here | feed | later
      · exact .inr ⟨line, List.mem_cons_self, here⟩
      · exact .inl feed
      · rcases inductionHypothesis later with feed | ⟨other, member, there⟩
        · exact .inl feed
        · exact .inr ⟨other, List.mem_cons_of_mem _ member, there⟩

/-- A block string whose value is lines is written without carriage returns. -/
theorem return_not_mem_encode {lines : List (List Char)}
    (unbroken : ∀ line ∈ lines, BlockString.Unbroken line) :
    '\r' ∉ BlockString.encode (BlockString.joinLines lines) := by
  have escaped : '\r' ∉ BlockString.escapeQuotes (BlockString.joinLines lines) := by
    rw [BlockString.escapeQuotes_joinLines]
    intro inside
    rcases mem_joinLines inside with feed | ⟨line, member, there⟩
    · contradiction
    · obtain ⟨source, listed, rfl⟩ := List.mem_map.1 member
      have plain := BlockString.unbroken_escapeQuotes (unbroken source listed) '\r' there
      contradiction
  have feeds (broken : Bool) : '\r' ∉ (if broken then ['\n'] else ([] : List Char)) := by
    cases broken <;> decide
  simp [BlockString.encode, escaped, feeds]

end Strings

/-- Neither characters of names nor parts of numbers are line breaks. -/
theorem isLineBreak_eq_false {character : Char}
    (part : isNameContinue character = true ∨ isNumberPart character = true) :
    Text.isLineBreak character = false := by
  cases broken : Text.isLineBreak character with
  | false => rfl
  | true =>
    simp only [Text.isLineBreak, Bool.or_eq_true, beq_iff_eq] at broken
    rcases broken with rfl | rfl <;> rcases part with part | part <;> contradiction

/-- Only block strings are written with line breaks. -/
theorem Token.Legible.unbroken {token : Token} (legible : token.Legible) :
    (∀ character ∈ token.spelling, Text.isLineBreak character = false) ∨
      ∃ raw, token = .blockString (String.ofList (BlockString.value raw)) := by
  obtain ⟨first, source, remaining, found⟩ := legible
  rcases readToken_cases found with ⟨sign, rfl⟩ | ⟨text, rfl, begun, others, spelled, start, more⟩ |
    ⟨-, number⟩ | ⟨value, rfl⟩ | block
  · have plain : (Token.punctuator sign).spelling.all (!Text.isLineBreak ·) = true := by
      cases sign <;> rfl
    simpa using plain
  · refine .inl fun character inside => isLineBreak_eq_false (.inl ?_)
    rw [Token.spelling, spelled, List.mem_cons] at inside
    rcases inside with rfl | later
    · simp [isNameContinue, start]
    · exact more character later
  · exact .inl fun character inside =>
      isLineBreak_eq_false (.inr (isNumberPart_of_readNumber number character inside))
  · exact .inl (unbroken_encode value.toList)
  · exact .inr block

/-- Nothing is written with a carriage return. -/
theorem Token.Legible.return_not_mem {token : Token} (legible : token.Legible) :
    '\r' ∉ token.spelling := by
  intro inside
  rcases legible.unbroken with unbroken | ⟨raw, rfl⟩
  · have := unbroken '\r' inside
    contradiction
  · obtain ⟨lines, settled, same⟩ := BlockString.exists_settled_value raw
    rw [Token.spelling, String.toList_ofList, same] at inside
    exact return_not_mem_encode settled.unbroken inside

end GraphQLCanon.Lexical
