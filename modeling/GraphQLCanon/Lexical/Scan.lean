import GraphQLCanon.Lexical.Number
import GraphQLCanon.Lexical.QuotedString
import GraphQLCanon.Lexical.BlockString

/-!
# Scanning

Cuts a text into tokens. Separators and comments are passed over; every token is
the longest one that the text allows at its place. A scan ends at the end of the
text or at the first fault, and keeps the tokens before the fault, because a
text can be refused on grounds of grammar before the fault is reached.
-/

namespace GraphQLCanon.Lexical

/-- Passes over separators and comments. A comment runs up to the next line
break; the flag tells whether one is open. -/
def skipIgnored (inComment : Bool) : List Char → List Char
  | [] => []
  | character :: rest =>
    if inComment && !Text.isLineBreak character then skipIgnored true rest
    else if character = '#' then skipIgnored true rest
    else if isSeparator character then skipIgnored false rest
    else character :: rest

/-- Reads the string literal whose first quote has been passed. Two more quotes
make it a block string. -/
def readString (source : List Char) : Except Fault (Token × List Char) :=
  match source with
  | '"' :: '"' :: inner =>
    (BlockString.read inner).map fun (value, remaining) =>
      (.blockString (String.ofList value), remaining)
  | _ =>
    (QuotedString.read source).map fun (value, remaining) =>
      (.string (String.ofList value), remaining)

/-- Reads the token that begins with a given character, which is no separator
and opens no comment: the token, and what follows it. -/
def readToken (first : Char) (rest : List Char) : Except Fault (Token × List Char) :=
  match Punctuator.ofChar? first with
  | some sign => .ok (.punctuator sign, rest)
  | none =>
    if first = '.' then
      match rest with
      | '.' :: '.' :: remaining => .ok (.punctuator .ellipsis, remaining)
      | _ => .error ⟨.unexpectedCharacter first, first :: rest⟩
    else if first = '"' then readString rest
    else if first.isDigit || first == '-' then readNumber (first :: rest)
    else if isNameStart first then
      .ok (.name (String.ofList (first :: rest.takeWhile isNameContinue)),
        rest.dropWhile isNameContinue)
    else if first = '\'' then .error ⟨.singleQuote, first :: rest⟩
    else .error ⟨.unexpectedCharacter first, first :: rest⟩

/-- A token with its place, which is the part of the text that begins with
it. -/
structure Lexeme where
  token : Token
  source : List Char
  deriving DecidableEq, Repr

/-- The tokens of a text up to its end or its first fault. -/
structure Scan where
  lexemes : List Lexeme
  fault : Option Fault
  deriving DecidableEq, Repr

/-- The tokens of a scan without their places. -/
def Scan.tokens (scan : Scan) : List Token := scan.lexemes.map Lexeme.token

/-- Passing over separators and comments leaves an end of the text. -/
theorem skipIgnored_suffix (inComment : Bool) (source : List Char) :
    skipIgnored inComment source <:+ source := by
  induction source generalizing inComment with
  | nil => exact List.suffix_refl []
  | cons character rest inductionHypothesis =>
    unfold skipIgnored
    split
    · exact (inductionHypothesis true).trans (List.suffix_cons character rest)
    · split
      · exact (inductionHypothesis true).trans (List.suffix_cons character rest)
      · split
        · exact (inductionHypothesis false).trans (List.suffix_cons character rest)
        · exact List.suffix_refl _

/-- A string literal takes a part of the source behind its first quote. -/
theorem readString_ok {source remaining : List Char} {token : Token}
    (found : readString source = .ok (token, remaining)) :
    ∃ spelling, source = spelling ++ remaining := by
  unfold readString at found
  split at found
  · rename_i inner
    cases read : BlockString.read inner with
    | error fault => simp [read, Except.map] at found
    | ok parts =>
      simp only [read, Except.map, Except.ok.injEq, Prod.mk.injEq] at found
      obtain ⟨rfl, rfl⟩ := found
      obtain ⟨spelling, _, split⟩ := BlockString.read_ok read
      exact ⟨'"' :: '"' :: spelling, by rw [split]; rfl⟩
  · cases read : QuotedString.read source with
    | error fault => simp [read, Except.map] at found
    | ok parts =>
      simp only [read, Except.map, Except.ok.injEq, Prod.mk.injEq] at found
      obtain ⟨rfl, rfl⟩ := found
      obtain ⟨spelling, _, split⟩ := QuotedString.read_ok read
      exact ⟨spelling, split⟩

/-- A token takes at least its first character, and leaves the rest of the source
as it was. -/
theorem readToken_ok {first : Char} {rest remaining : List Char} {token : Token}
    (found : readToken first rest = .ok (token, remaining)) :
    ∃ spelling, spelling ≠ [] ∧ first :: rest = spelling ++ remaining := by
  unfold readToken at found
  split at found
  · cases found
    exact ⟨[first], by simp, by simp⟩
  · split at found
    · split at found
      · cases found
        exact ⟨[first, '.', '.'], by simp, by simp⟩
      · contradiction
    · split at found
      · obtain ⟨spelling, split⟩ := readString_ok found
        exact ⟨first :: spelling, by simp, by rw [split, List.cons_append]⟩
      · split at found
        · obtain ⟨spelling, nonempty, split, _⟩ := readNumber_ok found
          exact ⟨spelling, nonempty, split⟩
        · split at found
          · cases found
            refine ⟨first :: rest.takeWhile isNameContinue, by simp, ?_⟩
            rw [List.cons_append, List.takeWhile_append_dropWhile]
          · split at found <;> contradiction

/-- Scanning always goes on behind the token that was read. -/
theorem length_remaining_lt {source rest remaining : List Char} {first : Char} {token : Token}
    (skipped : skipIgnored false source = first :: rest)
    (found : readToken first rest = .ok (token, remaining)) :
    remaining.length < source.length := by
  obtain ⟨spelling, nonempty, split⟩ := readToken_ok found
  have shorter := (skipIgnored_suffix false source).length_le
  have positive := List.length_pos_iff.2 nonempty
  rw [skipped, split, List.length_append] at shorter
  omega

/-- The tokens of a text, up to its end or its first fault. -/
def scan (source : List Char) : Scan :=
  match _skipped : skipIgnored false source with
  | [] => ⟨[], none⟩
  | first :: rest =>
    match _found : readToken first rest with
    | .error fault => ⟨[], some fault⟩
    | .ok (token, remaining) =>
      let others := scan remaining
      ⟨⟨token, first :: rest⟩ :: others.lexemes, others.fault⟩
termination_by source.length
decreasing_by exact length_remaining_lt (by assumption) (by assumption)

end GraphQLCanon.Lexical
