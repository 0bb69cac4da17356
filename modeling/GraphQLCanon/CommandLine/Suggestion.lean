import GraphQLCanon.Text.Order
import GraphQLCanon.Text.Quoting
import GraphQLCanon.Comparison.Script

/-!
# Suggestions

For a word that is not known, the known words that look like it. Two words are
compared as lists of characters; they are close when six tenths of their
characters are shared. The closest three are suggested.
-/

namespace GraphQLCanon.CommandLine

/-- A known word, the number of characters that it shares with another one, and
the number of characters that both have together. -/
structure Likeness where
  word : String
  shared : Nat
  total : Nat
  deriving DecidableEq, Repr

/-- The likeness of a known word to a word that was written. -/
def Likeness.between (known written : String) : Likeness :=
  let segments := Comparison.scriptBetween (fun _ => true) known.toList written.toList
  let shared := segments.foldl (fun count segment => count + segment.shared) 0
  ⟨known, shared, known.length + written.length⟩

/-- True when six tenths of both words are shared. A shared character belongs to
both. -/
def Likeness.isClose (likeness : Likeness) : Bool :=
  6 * likeness.total ≤ 10 * (2 * likeness.shared)

/-- The order of suggestions: the larger part is shared first; of words that share
equal parts the one with the greater name. -/
def Likeness.precedes (left right : Likeness) : Bool :=
  right.shared * left.total < left.shared * right.total ||
    (right.shared * left.total == left.shared * right.total && decide (right.word ≤ left.word))

/-- The number of words that are suggested at most. -/
def mostSuggestions : Nat := 3

/-- The known words that are suggested for a word, in the order of their names. -/
def closeWords (known : List String) (written : String) : List String :=
  let close := (known.map fun word => Likeness.between word written).filter Likeness.isClose
  Text.sortOn id (((close.mergeSort Likeness.precedes).take mostSuggestions).map Likeness.word)

/-- The question that follows the report of an unknown word, or nothing when no
known word is close. -/
def suggestion (known : List String) (written : String) : String :=
  match closeWords known written with
  | [] => ""
  | [word] => " Did you mean " ++ Text.quoted word ++ "?"
  | words =>
    " (Did you mean one of: " ++ ", ".intercalate (words.map Text.quoted) ++ "?)"

end GraphQLCanon.CommandLine
