import GraphQLCanon.Lexical.Number
import GraphQLCanon.Proofs.Delimiters

/-!
# Numbers in front of a delimiter

Reading a number looks at one character behind it, to see that the number ends
there. So a spelling that was read as a number once is read as the same number
in front of every text that does not go on with it. Each part of a number has a law of
this form: it needs to know only that what follows does not prolong it.
-/

namespace GraphQLCanon.Lexical

/-- Digits that were read are read again where no digit follows. -/
theorem readDigits_append {source digits remaining rest : List Char}
    (read : readDigits source = .ok (digits, remaining)) (ends : Leaves Char.isDigit rest) :
    readDigits (digits ++ rest) = .ok (digits, rest) := by
  unfold readDigits at read
  split at read
  · contradiction
  · rename_i nonempty
    cases read
    have inside := forall_mem_takeWhile Char.isDigit source
    simp only [readDigits, takeWhile_append_of_leaves inside ends,
      dropWhile_append_of_leaves inside ends]

/-- What was read as digits is digits. -/
theorem isDigit_of_readDigits {source digits remaining : List Char}
    (read : readDigits source = .ok (digits, remaining)) :
    ∀ character ∈ digits, character.isDigit = true := by
  unfold readDigits at read
  split at read
  · contradiction
  · cases read
    exact forall_mem_takeWhile Char.isDigit source

/-- The first of the digits that were read is the first character of the source. -/
theorem readDigits_head {source digits remaining : List Char}
    (read : readDigits source = .ok (digits, remaining)) : digits.head? = source.head? := by
  obtain ⟨split, nonempty⟩ := readDigits_ok read
  cases digits with
  | nil => contradiction
  | cons first others => simp [split]

/-- An integer part that does not begin with a zero is a run of digits. -/
theorem readIntegerPart_of_head_ne {source : List Char} (plain : source.head? ≠ some '0') :
    readIntegerPart source = readDigits source := by
  unfold readIntegerPart
  split
  · simp at plain
  · rfl

/-- An integer part that was read is read again where no digit follows. A zero in
front stands alone, and any other digit opens a run of digits. -/
theorem readIntegerPart_append {source whole remaining rest : List Char}
    (read : readIntegerPart source = .ok (whole, remaining)) (ends : Leaves Char.isDigit rest) :
    readIntegerPart (whole ++ rest) = .ok (whole, rest) := by
  by_cases zero : source.head? = some '0'
  · obtain ⟨others, rfl⟩ := List.head?_eq_some_iff.1 zero
    have alone : whole = ['0'] := by
      unfold readIntegerPart at read
      split at read
      · split at read
        · cases read
          rfl
        · split at read
          · contradiction
          · cases read
            rfl
      · rename_i other
        exact absurd rfl (other others)
    subst alone
    cases rest with
    | nil => rfl
    | cons character tail =>
      rw [leaves_cons] at ends
      simp [readIntegerPart, ends]
  · rw [readIntegerPart_of_head_ne zero] at read
    have nonempty := (readDigits_ok read).2
    have head : (whole ++ rest).head? ≠ some '0' := by
      rw [← readDigits_head read] at zero
      cases whole with
      | nil => contradiction
      | cons first others => simpa using zero
    rw [readIntegerPart_of_head_ne head, readDigits_append read ends]

/-- A fraction that was read is read again where neither a digit nor a point
follows. -/
theorem readFraction_append {source fraction remaining rest : List Char}
    (read : readFraction source = .ok (fraction, remaining)) (ends : Leaves Char.isDigit rest)
    (apart : rest.head? ≠ some '.') : readFraction (fraction ++ rest) = .ok (fraction, rest) := by
  unfold readFraction at read
  split at read
  · rename_i inner
    cases found : readDigits inner with
    | error fault => simp [found, bind, Except.bind] at read
    | ok parts =>
      simp only [found, bind, Except.bind, pure, Except.pure, Except.ok.injEq,
        Prod.mk.injEq] at read
      obtain ⟨rfl, rfl⟩ := read
      simp [readFraction, readDigits_append found ends, bind, Except.bind, pure, Except.pure]
  · cases read
    unfold readFraction
    split
    · rename_i same
      simp only [List.nil_append] at same
      simp [same] at apart
    · rfl

/-- The sign of an exponent is split off again in front of its digits. -/
theorem splitExponentSign_sign_append {source digits : List Char} (rest : List Char)
    (nonempty : digits ≠ []) (digit : ∀ character ∈ digits, character.isDigit = true) :
    splitExponentSign ((splitExponentSign source).1 ++ (digits ++ rest)) =
      ((splitExponentSign source).1, digits ++ rest) := by
  have unsigned : splitExponentSign (digits ++ rest) = ([], digits ++ rest) := by
    cases digits with
    | nil => contradiction
    | cons first others =>
      have plain := digit first List.mem_cons_self
      unfold splitExponentSign
      split
      · rename_i same
        simp only [List.cons_append, List.cons.injEq] at same
        rw [same.1] at plain
        contradiction
      · rename_i same
        simp only [List.cons_append, List.cons.injEq] at same
        rw [same.1] at plain
        contradiction
      · rfl
  have signs : (splitExponentSign source).1 = ['+'] ∨ (splitExponentSign source).1 = ['-'] ∨
      (splitExponentSign source).1 = [] := by
    unfold splitExponentSign
    split <;> simp
  rcases signs with sign | sign | sign
  · rw [sign]
    rfl
  · rw [sign]
    rfl
  · rw [sign]
    exact unsigned

/-- An exponent that was read is read again where no name goes on. -/
theorem readExponent_append {source exponent remaining rest : List Char}
    (read : readExponent source = .ok (exponent, remaining))
    (ends : Leaves isNameContinue rest) :
    readExponent (exponent ++ rest) = .ok (exponent, rest) := by
  have noDigit : Leaves Char.isDigit rest := by
    intro character inFront
    have apart := ends character inFront
    simp only [isNameContinue, Bool.or_eq_false_iff] at apart
    exact apart.2
  have nothing : readExponent rest = .ok ([], rest) := by
    cases rest with
    | nil => rfl
    | cons character tail =>
      have apart : isNameContinue character = false := by simpa using ends
      have notMark : ¬(character = 'e' ∨ character = 'E') := by
        rintro (rfl | rfl) <;> contradiction
      simp [readExponent, notMark]
  unfold readExponent at read
  split at read
  · cases read
    exact nothing
  · rename_i mark others
    split at read
    · rename_i isMark
      cases found : readDigits (splitExponentSign others).2 with
      | error fault => simp [found, bind, Except.bind] at read
      | ok parts =>
        simp only [found, bind, Except.bind, pure, Except.pure, Except.ok.injEq,
          Prod.mk.injEq] at read
        obtain ⟨rfl, rfl⟩ := read
        simp only [List.cons_append, List.append_assoc, readExponent, isMark, if_true,
          splitExponentSign_sign_append rest (readDigits_ok found).2 (isDigit_of_readDigits found),
          readDigits_append found noDigit, bind, Except.bind, pure, Except.pure]
    · cases read
      exact nothing

/-- An integer part is opened by a digit. -/
theorem isDigit_head_of_readIntegerPart {source whole remaining : List Char}
    (read : readIntegerPart source = .ok (whole, remaining)) :
    ∃ first others, whole = first :: others ∧ first.isDigit = true := by
  unfold readIntegerPart at read
  split at read
  · split at read
    · cases read
      exact ⟨'0', [], rfl, by decide⟩
    · split at read
      · contradiction
      · cases read
        exact ⟨'0', [], rfl, by decide⟩
  · have digit := isDigit_of_readDigits read
    cases whole with
    | nil => exact absurd rfl (readDigits_ok read).2
    | cons first others => exact ⟨first, others, rfl, digit first List.mem_cons_self⟩

/-- A fraction is empty or opened by a point. -/
theorem head_of_readFraction {source fraction remaining : List Char}
    (read : readFraction source = .ok (fraction, remaining)) :
    fraction = [] ∨ fraction.head? = some '.' := by
  unfold readFraction at read
  split at read
  · rename_i inner
    cases found : readDigits inner with
    | error fault => simp [found, bind, Except.bind] at read
    | ok parts =>
      simp only [found, bind, Except.bind, pure, Except.pure, Except.ok.injEq,
        Prod.mk.injEq] at read
      obtain ⟨rfl, rfl⟩ := read
      exact .inr rfl
  · cases read
    exact .inl rfl

/-- An exponent is empty or opened by its mark. -/
theorem head_of_readExponent {source exponent remaining : List Char}
    (read : readExponent source = .ok (exponent, remaining)) :
    exponent = [] ∨ exponent.head? = some 'e' ∨ exponent.head? = some 'E' := by
  unfold readExponent at read
  split at read
  · cases read
    exact .inl rfl
  · rename_i mark others
    split at read
    · rename_i isMark
      cases found : readDigits (splitExponentSign others).2 with
      | error fault => simp [found, bind, Except.bind] at read
      | ok parts =>
        simp only [found, bind, Except.bind, pure, Except.pure, Except.ok.injEq,
          Prod.mk.injEq] at read
        obtain ⟨rfl, rfl⟩ := read
        rcases isMark with rfl | rfl
        · exact .inr (.inl rfl)
        · exact .inr (.inr rfl)
    · cases read
      exact .inl rfl

/-- The minus sign is split off again in front of an integer part. -/
theorem splitMinus_minus_append {source whole : List Char} (rest : List Char)
    (digit : ∃ first others, whole = first :: others ∧ first.isDigit = true) :
    splitMinus ((splitMinus source).1 ++ (whole ++ rest)) =
      ((splitMinus source).1, whole ++ rest) := by
  obtain ⟨first, others, rfl, isDigit⟩ := digit
  have unsigned : splitMinus (first :: others ++ rest) = ([], first :: others ++ rest) := by
    unfold splitMinus
    split
    · rename_i same
      simp only [List.cons_append, List.cons.injEq] at same
      rw [same.1] at isDigit
      contradiction
    · rfl
  have signs : (splitMinus source).1 = ['-'] ∨ (splitMinus source).1 = [] := by
    unfold splitMinus
    split <;> simp
  rcases signs with sign | sign
  · rw [sign]
    rfl
  · rw [sign]
    exact unsigned

/-- Nothing that may not follow a number follows it where no number goes on. -/
theorem badFollower?_of_leaves {rest : List Char} (leaves : Leaves isNumberContinue rest) :
    badFollower? rest = none := by
  cases rest with
  | nil => rfl
  | cons character others =>
    have apart : isNumberContinue character = false := by simpa using leaves
    simp only [isNumberContinue, isNameContinue, Bool.or_eq_false_iff, beq_eq_false_iff_ne] at apart
    simp [badFollower?, apart]

/-- No digit and no point stands behind the fraction of a number, whether the number
has an exponent or ends there. -/
theorem exponent_apart {source exponent remaining rest : List Char}
    (read : readExponent source = .ok (exponent, remaining))
    (leaves : Leaves isNumberContinue rest) :
    Leaves Char.isDigit (exponent ++ rest) ∧ (exponent ++ rest).head? ≠ some '.' := by
  rcases head_of_readExponent read with rfl | opened
  · exact leaves.number_parts.2
  · cases exponent with
    | nil => simp at opened
    | cons mark others =>
      rcases opened with same | same <;> cases same <;> exact ⟨by simp, by simp⟩

/-- No digit stands behind the integer part of a number. -/
theorem fraction_apart {source fraction remaining rest : List Char}
    (read : readFraction source = .ok (fraction, remaining)) (ends : Leaves Char.isDigit rest) :
    Leaves Char.isDigit (fraction ++ rest) := by
  rcases head_of_readFraction read with rfl | opened
  · exact ends
  · obtain ⟨others, rfl⟩ := List.head?_eq_some_iff.1 opened
    simp

/-- A spelling that was read as a number is read as the same number wherever no number
goes on behind it. -/
theorem readNumber_append {source spelling remaining rest : List Char} {token : Token}
    (read : readNumber source = .ok (token, remaining)) (split : source = spelling ++ remaining)
    (leaves : Leaves isNumberContinue rest) :
    readNumber (spelling ++ rest) = .ok (token, rest) := by
  unfold readNumber at read
  cases foundWhole : readIntegerPart (splitMinus source).2 with
  | error fault => simp [foundWhole, bind, Except.bind] at read
  | ok parts =>
    obtain ⟨whole, afterWhole⟩ := parts
    cases foundFraction : readFraction afterWhole with
    | error fault => simp [foundWhole, foundFraction, bind, Except.bind] at read
    | ok parts =>
      obtain ⟨fraction, afterFraction⟩ := parts
      cases foundExponent : readExponent afterFraction with
      | error fault => simp [foundWhole, foundFraction, foundExponent, bind, Except.bind] at read
      | ok parts =>
        obtain ⟨exponent, behind⟩ := parts
        simp only [foundWhole, foundFraction, foundExponent, bind, Except.bind] at read
        split at read
        · contradiction
        · cases read
          have parts : spelling = (splitMinus source).1 ++ (whole ++ (fraction ++ exponent)) := by
            have whole : spelling ++ remaining =
                (splitMinus source).1 ++ (whole ++ (fraction ++ exponent)) ++ remaining := by
              rw [← split]
              simp only [List.append_assoc]
              rw [← readExponent_ok foundExponent, ← readFraction_ok foundFraction,
                ← (readIntegerPart_ok foundWhole).1, splitMinus_append]
            exact List.append_cancel_right whole
          have afterwards := exponent_apart foundExponent leaves
          have behindWhole := fraction_apart foundFraction afterwards.1
          simp only [parts, readNumber, List.append_assoc,
            splitMinus_minus_append _ (isDigit_head_of_readIntegerPart foundWhole),
            readIntegerPart_append foundWhole behindWhole,
            readFraction_append foundFraction afterwards.1 afterwards.2,
            readExponent_append foundExponent leaves.number_parts.1,
            badFollower?_of_leaves leaves, bind, Except.bind]

section Behind

/-- What is left behind the characters of a class at the front leaves the class. -/
theorem leaves_dropWhile (class? : Char → Bool) (text : List Char) :
    Leaves class? (text.dropWhile class?) := by
  intro character inFront
  simpa [inFront] using List.head?_dropWhile_not class? text

variable {source remaining : List Char}

/-- Digits are read up to the last one. -/
theorem leaves_of_readDigits {digits : List Char}
    (read : readDigits source = .ok (digits, remaining)) : Leaves Char.isDigit remaining := by
  unfold readDigits at read
  split at read
  · contradiction
  · cases read
    exact leaves_dropWhile Char.isDigit source

/-- No digit stands behind an integer part. -/
theorem leaves_of_readIntegerPart {whole : List Char}
    (read : readIntegerPart source = .ok (whole, remaining)) : Leaves Char.isDigit remaining := by
  unfold readIntegerPart at read
  split at read
  · split at read
    · cases read
      simp [Leaves]
    · split at read
      · contradiction
      · rename_i plain
        cases read
        simpa using plain
  · exact leaves_of_readDigits read

/-- No digit stands behind a fraction, if none stands where it would be. -/
theorem leaves_of_readFraction {fraction : List Char} (leaves : Leaves Char.isDigit source)
    (read : readFraction source = .ok (fraction, remaining)) : Leaves Char.isDigit remaining := by
  unfold readFraction at read
  split at read
  · rename_i inner
    cases found : readDigits inner with
    | error fault => simp [found, bind, Except.bind] at read
    | ok parts =>
      simp only [found, bind, Except.bind, pure, Except.pure, Except.ok.injEq,
        Prod.mk.injEq] at read
      obtain ⟨rfl, rfl⟩ := read
      exact leaves_of_readDigits found
  · cases read
    exact leaves

/-- No digit stands behind an exponent, if none stands where it would be. -/
theorem leaves_of_readExponent {exponent : List Char} (leaves : Leaves Char.isDigit source)
    (read : readExponent source = .ok (exponent, remaining)) : Leaves Char.isDigit remaining := by
  unfold readExponent at read
  split at read
  · cases read
    exact leaves
  · rename_i mark others
    split at read
    · cases found : readDigits (splitExponentSign others).2 with
      | error fault => simp [found, bind, Except.bind] at read
      | ok parts =>
        simp only [found, bind, Except.bind, pure, Except.pure, Except.ok.injEq,
          Prod.mk.injEq] at read
        obtain ⟨rfl, rfl⟩ := read
        exact leaves_of_readDigits found
    · cases read
      exact leaves

/-- What is left behind a number does not go on with it. -/
theorem leaves_of_readNumber {token : Token} (read : readNumber source = .ok (token, remaining)) :
    Leaves isNumberContinue remaining := by
  unfold readNumber at read
  cases foundWhole : readIntegerPart (splitMinus source).2 with
  | error fault => simp [foundWhole, bind, Except.bind] at read
  | ok whole =>
    cases foundFraction : readFraction whole.2 with
    | error fault => simp [foundWhole, foundFraction, bind, Except.bind] at read
    | ok fraction =>
      cases foundExponent : readExponent fraction.2 with
      | error fault => simp [foundWhole, foundFraction, foundExponent, bind, Except.bind] at read
      | ok exponent =>
        have noDigit : Leaves Char.isDigit exponent.2 :=
          leaves_of_readExponent (leaves_of_readFraction (leaves_of_readIntegerPart foundWhole)
            foundFraction) foundExponent
        simp only [foundWhole, foundFraction, foundExponent, bind, Except.bind] at read
        split at read
        · contradiction
        · rename_i noFollower
          cases read
          intro character inFront
          have apart : character ≠ '.' ∧ isNameStart character = false := by
            simpa [badFollower?, inFront, Option.filter] using noFollower
          simp [isNumberContinue, isNameContinue, apart, noDigit character inFront]

/-- A number that was read is read as the same number in front of anything more, if that
does not go on with it where nothing is left. -/
theorem readNumber_before {token : Token} {behind : List Char}
    (read : readNumber source = .ok (token, remaining))
    (ends : remaining = [] → Leaves isNumberContinue behind) :
    readNumber (source ++ behind) = .ok (token, remaining ++ behind) := by
  obtain ⟨spelling, -, split, -⟩ := readNumber_ok read
  have leaves : Leaves isNumberContinue (remaining ++ behind) := by
    cases remaining with
    | nil => exact ends rfl
    | cons next others =>
      have own := leaves_of_readNumber read
      simpa using own
  have again := readNumber_append read split leaves
  rwa [split, List.append_assoc]

end Behind

end GraphQLCanon.Lexical
