import GraphQLCanon.Text.Lines
import GraphQLCanon.Lexical.Fault

/-!
# Quoted strings

A quoted string stands on one line between double quotes. A backslash opens an
escape: one of eight short ones, a code unit of four hexadecimal digits, or a
code point in braces. Two code units may join to one character when they form a
surrogate pair. Writing uses the short escapes and code units for control
characters, and leaves every other character as it is.
-/

namespace GraphQLCanon.Lexical.QuotedString

/-- The characters that short escapes denote. -/
def shortEscape? : Char → Option Char
  | '"' => some '"'
  | '\\' => some '\\'
  | '/' => some '/'
  | 'b' => some '\x08'
  | 'f' => some '\x0c'
  | 'n' => some '\n'
  | 'r' => some '\r'
  | 't' => some '\t'
  | _ => none

/-- The character of a code point, if there is one: surrogates have none. -/
def characterOf? (code : Nat) : Option Char :=
  if code.isValidChar then some (Char.ofNat code) else none

/-- The code unit that the first four characters denote. -/
def codeUnit? (source : List Char) : Option Nat :=
  let digits := source.take 4
  if digits.length = 4 then hexValue? digits else none

/-- True of the code units that open a surrogate pair. -/
def isLeadingSurrogate (unit : Nat) : Bool := 0xD800 ≤ unit && unit ≤ 0xDBFF

/-- True of the code units that close a surrogate pair. -/
def isTrailingSurrogate (unit : Nat) : Bool := 0xDC00 ≤ unit && unit ≤ 0xDFFF

/-- The code point of a surrogate pair. -/
def joinSurrogates (leading trailing : Nat) : Nat :=
  0x10000 + (leading - 0xD800) * 0x400 + (trailing - 0xDC00)

/-- An escape by code units, read behind its `u`: the character and how many
characters it takes from there. -/
def fixedEscape? (source : List Char) : Option (Char × Nat) := do
  let unit ← codeUnit? source
  match characterOf? unit with
  | some character => return (character, 4)
  | none =>
    match source.drop 4 with
    | '\\' :: 'u' :: second =>
      let trailing ← codeUnit? second
      if isLeadingSurrogate unit && isTrailingSurrogate trailing then
        return (← characterOf? (joinSurrogates unit trailing), 10)
      else none
    | _ => none

/-- The digits of an escape in braces, read behind the opening brace. Nine
characters are looked at, the closing brace among them. -/
def bracedDigits (source : List Char) : List Char :=
  (source.take 9).takeWhile fun character => (hexDigitValue? character).isSome

/-- An escape in braces, read behind the opening brace: the character and how
many characters it takes from there. -/
def bracedEscape? (source : List Char) : Option (Char × Nat) :=
  let digits := bracedDigits source
  match ((source.take 9).drop digits.length).head? with
  | some '}' =>
    if digits.isEmpty then none
    else ((hexValue? digits).bind characterOf?).map fun character => (character, digits.length + 1)
  | _ => none

/-- Reads an escape behind its backslash: the character and how many characters
it takes from there. -/
def readEscape (source : List Char) : Except FaultCause (Char × Nat) :=
  match source with
  | [] => .error (.unknownEscape "\\")
  | 'u' :: '{' :: inner =>
    match bracedEscape? inner with
    | some (character, width) => .ok (character, width + 2)
    | none =>
      let looked := (inner.take 9).take ((bracedDigits inner).length + 1)
      .error (.badUnicodeEscape (String.ofList ('\\' :: 'u' :: '{' :: looked)))
  | 'u' :: inner =>
    match fixedEscape? inner with
    | some (character, width) => .ok (character, width + 1)
    | none => .error (.badUnicodeEscape (String.ofList ('\\' :: 'u' :: inner.take 4)))
  | letter :: _ =>
    match shortEscape? letter with
    | some character => .ok (character, 1)
    | none => .error (.unknownEscape (String.ofList ['\\', letter]))

/-- Reads a quoted string behind its opening quote, after so many characters that
an escape has already taken: the value, and what follows the closing quote. The end
of the line is the end of the string. -/
def readAfter : Nat → List Char → Except Fault (List Char × List Char)
  | _, [] => .error ⟨.unterminatedString, []⟩
  | taken + 1, _ :: rest => readAfter taken rest
  | 0, character :: rest =>
    if character = '"' then .ok ([], rest)
    else if Text.isLineBreak character then .error ⟨.unterminatedString, character :: rest⟩
    else if character = '\\' then
      match readEscape rest with
      | .error cause => .error ⟨cause, character :: rest⟩
      | .ok (value, width) =>
        (readAfter width rest).map fun (values, remaining) => (value :: values, remaining)
    else (readAfter 0 rest).map fun (values, remaining) => (character :: values, remaining)

/-- Reads a quoted string behind its opening quote: the value, and what follows
the closing quote. -/
def read (source : List Char) : Except Fault (List Char × List Char) := readAfter 0 source

/-- How a character is written inside a quoted string. -/
def escape (character : Char) : List Char :=
  if character = '"' then ['\\', '"']
  else if character = '\\' then ['\\', '\\']
  else if character = '\x08' then ['\\', 'b']
  else if character = '\t' then ['\\', 't']
  else if character = '\n' then ['\\', 'n']
  else if character = '\x0c' then ['\\', 'f']
  else if character = '\r' then ['\\', 'r']
  else if character.toNat ≤ 0x1F ∨ (0x7F ≤ character.toNat ∧ character.toNat ≤ 0x9F) then
    '\\' :: 'u' :: hexDigits 4 character.toNat
  else [character]

/-- The characters of a quoted string with a given value. -/
def encode (value : List Char) : List Char :=
  '"' :: value.flatMap escape ++ ['"']

/-- The quoted string that denotes a text. -/
def write (value : String) : String :=
  String.ofList (encode value.toList)

/-- What was read is the front of the source, and it is not empty. -/
theorem readAfter_ok {taken : Nat} {source values remaining : List Char}
    (found : readAfter taken source = .ok (values, remaining)) :
    ∃ spelling, spelling ≠ [] ∧ source = spelling ++ remaining := by
  induction source generalizing taken values with
  | nil => cases taken <;> contradiction
  | cons character rest inductionHypothesis =>
    have further : ∀ {taken values}, readAfter taken rest = .ok (values, remaining) →
        ∃ spelling, spelling ≠ [] ∧ character :: rest = spelling ++ remaining := by
      intro taken values inner
      obtain ⟨spelling, _, split⟩ := inductionHypothesis inner
      exact ⟨character :: spelling, by simp, by rw [split, List.cons_append]⟩
    cases taken with
    | succ taken => exact further found
    | zero =>
      unfold readAfter at found
      split at found
      · cases found
        exact ⟨[character], by simp, by simp⟩
      · split at found
        · contradiction
        · split at found
          · split at found
            · contradiction
            · rename_i value width _
              cases inner : readAfter width rest with
              | error fault => simp [inner, Except.map] at found
              | ok parts =>
                simp only [inner, Except.map, Except.ok.injEq, Prod.mk.injEq] at found
                obtain ⟨rfl, rfl⟩ := found
                exact further inner
          · cases inner : readAfter 0 rest with
            | error fault => simp [inner, Except.map] at found
            | ok parts =>
              simp only [inner, Except.map, Except.ok.injEq, Prod.mk.injEq] at found
              obtain ⟨rfl, rfl⟩ := found
              exact further inner

/-- What was read is the front of the source, and it is not empty. -/
theorem read_ok {source values remaining : List Char}
    (found : read source = .ok (values, remaining)) :
    ∃ spelling, spelling ≠ [] ∧ source = spelling ++ remaining :=
  readAfter_ok found

end GraphQLCanon.Lexical.QuotedString
