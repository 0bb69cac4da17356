import GraphQLCanon.Text.Blank

/-!
# Lines

A text is cut into lines at its breaks. A carriage return directly before a line
feed belongs to the same break, whichever further characters count as breaks.
The grammar knows line feeds and carriage returns only; a line that is shown in
a comparison also ends at the other separators that terminals and editors honour.
-/

namespace GraphQLCanon.Text

/-- Line feed and carriage return, the breaks of the grammar. -/
def isLineBreak (character : Char) : Bool :=
  character == '\n' || character == '\r'

/-- All breaks of a displayed line: line feed, carriage return, vertical tab,
form feed, the first three information separators, next line, and the line and
paragraph separators. -/
def isDisplayBreak (character : Char) : Bool :=
  isLineBreak character || character == '\x0b' || character == '\x0c' ||
    character == '\x1c' || character == '\x1d' || character == '\x1e' ||
    character == '\u0085' || character == '\u2028' || character == '\u2029'

/-- Puts a character in front of the first line. -/
def prependToFirst (character : Char) : List (List Char) → List (List Char)
  | [] => [[character]]
  | first :: others => (character :: first) :: others

/-- Cuts characters at the breaks of a class. There is always one line more than
there are breaks. A carriage return before a line feed is passed over, so that
the line feed ends the line. -/
def splitLines (isBreak : Char → Bool) : List Char → List (List Char)
  | [] => [[]]
  | character :: rest =>
    if character = '\r' ∧ rest.head? = some '\n' then splitLines isBreak rest
    else if isBreak character then [] :: splitLines isBreak rest
    else prependToFirst character (splitLines isBreak rest)

/-- The lines of a text as the grammar counts them. -/
def lines (characters : List Char) : List (List Char) :=
  splitLines isLineBreak characters

/-- The lines of a text as a comparison displays them: a break at the very end
opens no further line. -/
def displayLines (text : String) : List String :=
  let all := splitLines isDisplayBreak text.toList
  let kept := if all.getLast? = some [] then all.dropLast else all
  kept.map String.ofList

/-- Writes every break of the grammar as one line feed. -/
def unifyBreaks : List Char → List Char
  | [] => []
  | character :: rest =>
    if character = '\r' then
      if rest.head? = some '\n' then unifyBreaks rest else '\n' :: unifyBreaks rest
    else character :: unifyBreaks rest

/-- Cutting always yields a line. -/
theorem splitLines_ne_nil (isBreak : Char → Bool) (characters : List Char) :
    splitLines isBreak characters ≠ [] := by
  induction characters with
  | nil => simp [splitLines]
  | cons character rest inductionHypothesis =>
    unfold splitLines
    split
    · exact inductionHypothesis
    · split
      · simp
      · cases splitLines isBreak rest <;> simp [prependToFirst]

/-- Characters without a break of the class form a single line. -/
theorem splitLines_of_forall_not (isBreak : Char → Bool) (characters : List Char)
    (unbroken : ∀ character ∈ characters, isBreak character = false)
    (returns : ∀ character ∈ characters, character ≠ '\r') :
    splitLines isBreak characters = [characters] := by
  induction characters with
  | nil => rfl
  | cons character rest inductionHypothesis =>
    have tail := inductionHypothesis
      (fun other inside => unbroken other (List.mem_cons_of_mem _ inside))
      (fun other inside => returns other (List.mem_cons_of_mem _ inside))
    have head : character ≠ '\r' := returns character List.mem_cons_self
    have plain : isBreak character = false := unbroken character List.mem_cons_self
    simp [splitLines, head, plain, tail, prependToFirst]

/-- No carriage return is left after the breaks have been unified. -/
theorem return_not_mem_unifyBreaks (characters : List Char) :
    '\r' ∉ unifyBreaks characters := by
  induction characters with
  | nil => simp [unifyBreaks]
  | cons character rest inductionHypothesis =>
    unfold unifyBreaks
    split
    · split
      · exact inductionHypothesis
      · simp [inductionHypothesis]
    · rename_i other
      simp [inductionHypothesis, Ne.symm other]

/-- Where there is no carriage return, all breaks are line feeds already. -/
theorem unifyBreaks_of_returnless (characters : List Char) (returnless : '\r' ∉ characters) :
    unifyBreaks characters = characters := by
  induction characters with
  | nil => rfl
  | cons character rest inductionHypothesis =>
    rw [List.mem_cons, not_or] at returnless
    rw [unifyBreaks, if_neg (Ne.symm returnless.1), inductionHypothesis returnless.2]

end GraphQLCanon.Text
