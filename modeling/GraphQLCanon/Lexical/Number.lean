import GraphQLCanon.Lexical.Token
import GraphQLCanon.Lexical.Fault

/-!
# Numbers

An optional minus sign, an integer part without superfluous zeros, then
optionally a fraction and an exponent, each with at least one digit. A number is
an integer when it has neither. What follows directly may be any character
except a point or the start of a name.
-/

namespace GraphQLCanon.Lexical

/-- Reads one or more digits: the digits, and what is left. -/
def readDigits (source : List Char) : Except Fault (List Char × List Char) :=
  match source.takeWhile Char.isDigit with
  | [] => .error ⟨.expectedDigit source.head?, source⟩
  | digits => .ok (digits, source.dropWhile Char.isDigit)

/-- Reads the integer part. A leading zero stands alone. -/
def readIntegerPart (source : List Char) : Except Fault (List Char × List Char) :=
  match source with
  | '0' :: rest =>
    match rest with
    | [] => .ok (['0'], [])
    | next :: others =>
      if next.isDigit then .error ⟨.digitAfterZero next, next :: others⟩
      else .ok (['0'], next :: others)
  | _ => readDigits source

/-- Reads a fraction with its point, or nothing where there is no point. -/
def readFraction (source : List Char) : Except Fault (List Char × List Char) :=
  match source with
  | '.' :: rest => do
    let (digits, remaining) ← readDigits rest
    return ('.' :: digits, remaining)
  | _ => .ok ([], source)

/-- The sign that may stand between the exponent mark and its digits. -/
def splitExponentSign : List Char → List Char × List Char
  | '+' :: rest => (['+'], rest)
  | '-' :: rest => (['-'], rest)
  | source => ([], source)

/-- Reads an exponent with its mark, or nothing where there is no mark. -/
def readExponent (source : List Char) : Except Fault (List Char × List Char) :=
  match source with
  | [] => .ok ([], [])
  | mark :: rest =>
    if mark = 'e' ∨ mark = 'E' then do
      let (sign, unsigned) := splitExponentSign rest
      let (digits, remaining) ← readDigits unsigned
      return (mark :: sign ++ digits, remaining)
    else .ok ([], mark :: rest)

/-- The minus sign in front of a number, if there is one. -/
def splitMinus : List Char → List Char × List Char
  | '-' :: rest => (['-'], rest)
  | source => ([], source)

/-- The character directly behind a number when it may not stand there: a point
or the start of a name. -/
def badFollower? (remaining : List Char) : Option Char :=
  remaining.head?.filter fun next => next == '.' || isNameStart next

/-- The token of a number from its parts. -/
def numberToken (minus whole fraction exponent : List Char) : Token :=
  let text := String.ofList (minus ++ whole ++ fraction ++ exponent)
  if fraction.isEmpty && exponent.isEmpty then .int text else .float text

/-- Reads a number and refuses one that runs into a point or a name. -/
def readNumber (source : List Char) : Except Fault (Token × List Char) := do
  let (minus, unsigned) := splitMinus source
  let (whole, afterWhole) ← readIntegerPart unsigned
  let (fraction, afterFraction) ← readFraction afterWhole
  let (exponent, remaining) ← readExponent afterFraction
  match badFollower? remaining with
  | some next => .error ⟨.expectedDigit (some next), remaining⟩
  | none => .ok (numberToken minus whole fraction exponent, remaining)

/-- Digits are taken off the front of the source, at least one. -/
theorem readDigits_ok {source digits remaining : List Char}
    (read : readDigits source = .ok (digits, remaining)) :
    source = digits ++ remaining ∧ digits ≠ [] := by
  have whole := List.takeWhile_append_dropWhile (p := Char.isDigit) (l := source)
  unfold readDigits at read
  split at read
  · contradiction
  · rename_i found
    cases read
    exact ⟨whole.symm, found⟩

/-- The integer part is taken off the front of the source and is not empty. -/
theorem readIntegerPart_ok {source whole remaining : List Char}
    (read : readIntegerPart source = .ok (whole, remaining)) :
    source = whole ++ remaining ∧ whole ≠ [] := by
  unfold readIntegerPart at read
  split at read
  · split at read
    · cases read
      simp
    · split at read
      · contradiction
      · cases read
        simp
  · exact readDigits_ok read

/-- A fraction is taken off the front of the source. -/
theorem readFraction_ok {source fraction remaining : List Char}
    (read : readFraction source = .ok (fraction, remaining)) :
    source = fraction ++ remaining := by
  unfold readFraction at read
  split at read
  · rename_i rest
    cases found : readDigits rest with
    | error fault => simp [found, bind, Except.bind] at read
    | ok parts =>
      simp only [found, bind, Except.bind, pure, Except.pure, Except.ok.injEq,
      Prod.mk.injEq] at read
      obtain ⟨rfl, rfl⟩ := read
      simp [(readDigits_ok found).1]
  · cases read
    rfl

/-- The sign of an exponent is taken off the front of the source. -/
theorem splitExponentSign_append (source : List Char) :
    (splitExponentSign source).1 ++ (splitExponentSign source).2 = source := by
  unfold splitExponentSign
  split <;> rfl

/-- An exponent is taken off the front of the source. -/
theorem readExponent_ok {source exponent remaining : List Char}
    (read : readExponent source = .ok (exponent, remaining)) :
    source = exponent ++ remaining := by
  unfold readExponent at read
  split at read
  · cases read
    rfl
  · rename_i mark rest
    split at read
    · cases found : readDigits (splitExponentSign rest).2 with
      | error fault => simp [found, bind, Except.bind] at read
      | ok parts =>
        simp only [found, bind, Except.bind, pure, Except.pure, Except.ok.injEq,
          Prod.mk.injEq] at read
        obtain ⟨rfl, rfl⟩ := read
        rw [List.append_assoc, ← (readDigits_ok found).1, List.cons_append,
          splitExponentSign_append]
    · cases read
      rfl

/-- The minus sign is taken off the front of the source. -/
theorem splitMinus_append (source : List Char) :
    (splitMinus source).1 ++ (splitMinus source).2 = source := by
  unfold splitMinus
  split <;> rfl

/-- A number is spelled by what was taken off the front of the source, and that
is never empty. -/
theorem readNumber_ok {source remaining : List Char} {token : Token}
    (read : readNumber source = .ok (token, remaining)) :
    ∃ spelling, spelling ≠ [] ∧ source = spelling ++ remaining ∧
      token.text? = some (String.ofList spelling) := by
  unfold readNumber at read
  cases foundWhole : readIntegerPart (splitMinus source).2 with
  | error fault => simp [foundWhole, bind, Except.bind] at read
  | ok parts =>
    obtain ⟨whole, afterWhole⟩ := parts
    cases foundFraction : readFraction afterWhole with
    | error fault => simp [foundWhole, foundFraction, bind, Except.bind] at read
    | ok parts =>
      obtain ⟨fraction, afterFraction⟩ := parts
      cases foundExponent : readExponent afterFraction with
      | error fault => simp [foundWhole, foundFraction, foundExponent, bind, Except.bind] at read
      | ok parts =>
        obtain ⟨exponent, rest⟩ := parts
        simp only [foundWhole, foundFraction, foundExponent, bind, Except.bind] at read
        split at read
        · contradiction
        · cases read
          refine ⟨(splitMinus source).1 ++ whole ++ fraction ++ exponent, ?_, ?_, ?_⟩
          · simp [(readIntegerPart_ok foundWhole).2]
          · simp only [List.append_assoc]
            rw [← readExponent_ok foundExponent, ← readFraction_ok foundFraction,
              ← (readIntegerPart_ok foundWhole).1, splitMinus_append]
          · unfold numberToken
            simp only
            split <;> rfl

end GraphQLCanon.Lexical
