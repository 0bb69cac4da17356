import GraphQLCanon.Text.Lines
import GraphQLCanon.Lexical.Fault

/-!
# Block strings

A block string stands between triple quotes and may hold line breaks. Nothing in
it is an escape except a backslash before three quotes. Its value leaves out the
indentation that all lines but the first have in common, and the blank lines at
both ends. Writing puts the value on lines of its own unless it is short, and
never changes what is read back.
-/

namespace GraphQLCanon.Lexical.BlockString

/-- Reads the raw text of a block string behind its opening quotes: the text,
and what follows the closing quotes. -/
def readRaw : List Char → Except Fault (List Char × List Char)
  | [] => .error ⟨.unterminatedString, []⟩
  | '"' :: '"' :: '"' :: rest => .ok ([], rest)
  | '\\' :: '"' :: '"' :: '"' :: rest =>
    (readRaw rest).map fun (raw, remaining) => ('"' :: '"' :: '"' :: raw, remaining)
  | character :: rest =>
    (readRaw rest).map fun (raw, remaining) => (character :: raw, remaining)

/-- Spaces and tabs, the only characters that indent a line. -/
def isIndent (character : Char) : Bool :=
  character == ' ' || character == '\t'

/-- True of lines of nothing but indentation. -/
def isBlankLine (line : List Char) : Bool := line.all isIndent

/-- The indentation of a line. -/
def indentation (line : List Char) : Nat := (line.takeWhile isIndent).length

/-- The indentation that all lines with content share, zero when there are
none. -/
def commonIndentation (lines : List (List Char)) : Nat :=
  (((lines.filter fun line => !isBlankLine line).map indentation).min?).getD 0

/-- Removes the common indentation of all lines but the first, then the blank
lines at both ends. -/
def dedentLines : List (List Char) → List (List Char)
  | [] => []
  | first :: others =>
    let common := commonIndentation others
    Text.trimEnds isBlankLine (first :: others.map (·.drop common))

/-- Puts a line feed between lines. -/
def joinLines (lines : List (List Char)) : List Char := List.intercalate ['\n'] lines

/-- The value of a block string from its raw text. -/
def value (raw : List Char) : List Char := joinLines (dedentLines (Text.lines raw))

/-- Reads a block string behind its opening quotes: the value, and what follows
the closing quotes. -/
def read (source : List Char) : Except Fault (List Char × List Char) :=
  (readRaw source).map fun (raw, remaining) => (value raw, remaining)

/-- Puts a backslash before every three quotes in a row. -/
def escapeQuotes : List Char → List Char
  | '"' :: '"' :: '"' :: rest => '\\' :: '"' :: '"' :: '"' :: escapeQuotes rest
  | character :: rest => character :: escapeQuotes rest
  | [] => []

/-- The decisions about line breaks around a value that is written as a block
string. -/
structure Shape where
  /-- A line feed after the opening quotes. -/
  leading : Bool
  /-- A line feed before the closing quotes. -/
  trailing : Bool
  deriving DecidableEq, Repr

/-- Chooses the line breaks around a value. A value of several lines, a long one,
and one whose end would run into the closing quotes take their own lines. The
first line of a single-line value that starts with indentation stays behind the
opening quotes, and a later line whose indentation would be taken for the common
one forces the break. -/
def shape (value : List Char) : Shape :=
  let escaped := escapeQuotes value
  let lines := Text.lines escaped
  let single := lines.length == 1
  let forceLeading := !single && (lines.drop 1).all fun line => (line.head?.map isIndent).getD true
  let endsInQuotes := ['\\', '"', '"', '"'].isSuffixOf escaped
  let forceTrailing := (value.getLast? == some '"' && !endsInQuotes) || value.getLast? == some '\\'
  let multiline := !single || 70 < value.length || forceTrailing || forceLeading || endsInQuotes
  let skipLeading := single && (value.head?.map isIndent).getD false
  { leading := (multiline && !skipLeading) || forceLeading
    trailing := multiline || forceTrailing }

/-- The characters of a block string with a given value. -/
def encode (value : List Char) : List Char :=
  let quotes := ['"', '"', '"']
  let breakIf := fun (broken : Bool) => if broken then ['\n'] else []
  quotes ++ breakIf (shape value).leading ++ escapeQuotes value ++
    breakIf (shape value).trailing ++ quotes

/-- The block string that denotes a text. -/
def write (value : String) : String :=
  String.ofList (encode value.toList)

/-- What was read is the front of the source, and it is not empty. -/
theorem readRaw_ok {source raw remaining : List Char}
    (found : readRaw source = .ok (raw, remaining)) :
    ∃ spelling, spelling ≠ [] ∧ source = spelling ++ remaining := by
  fun_induction readRaw source generalizing raw with
  | case1 => contradiction
  | case2 rest =>
    cases found
    exact ⟨['"', '"', '"'], by simp, by simp⟩
  | case3 rest inductionHypothesis =>
    cases inner : readRaw rest with
    | error fault => simp [inner, Except.map] at found
    | ok parts =>
      simp only [inner, Except.map, Except.ok.injEq, Prod.mk.injEq] at found
      obtain ⟨rfl, rfl⟩ := found
      obtain ⟨spelling, _, split⟩ := inductionHypothesis inner
      exact ⟨'\\' :: '"' :: '"' :: '"' :: spelling, by simp, by simp [split]⟩
  | case4 character rest _ _ inductionHypothesis =>
    cases inner : readRaw rest with
    | error fault => simp [inner, Except.map] at found
    | ok parts =>
      simp only [inner, Except.map, Except.ok.injEq, Prod.mk.injEq] at found
      obtain ⟨rfl, rfl⟩ := found
      obtain ⟨spelling, _, split⟩ := inductionHypothesis inner
      exact ⟨character :: spelling, by simp, by rw [split, List.cons_append]⟩

/-- What was read is the front of the source, and it is not empty. -/
theorem read_ok {source values remaining : List Char}
    (found : read source = .ok (values, remaining)) :
    ∃ spelling, spelling ≠ [] ∧ source = spelling ++ remaining := by
  unfold read at found
  cases inner : readRaw source with
  | error fault => simp [inner, Except.map] at found
  | ok parts =>
    simp only [inner, Except.map, Except.ok.injEq, Prod.mk.injEq] at found
    obtain ⟨rfl, rfl⟩ := found
    exact readRaw_ok inner

end GraphQLCanon.Lexical.BlockString
