import GraphQLCanon.Comparison.Unified

/-!
# Coloured output

A printed line of a comparison is coloured by its first characters: green behind
a plus sign and red behind a minus sign, unless three of them begin the line.
Where colour is off, the escape sequences that colour or style text are removed
from everything printed.
-/

namespace GraphQLCanon.Comparison

/-- The colours of a comparison. -/
inductive Colour
  | green
  | red
  deriving DecidableEq, Repr

/-- The colour that the first characters of a printed line give it. -/
def Colour.ofPrinted? (printed : List Char) : Option Colour :=
  if "+".toList.isPrefixOf printed && !"+++".toList.isPrefixOf printed then some .green
  else if "-".toList.isPrefixOf printed && !"---".toList.isPrefixOf printed then some .red
  else none

/-- The number of a colour in escape sequences. -/
def Colour.code : Colour → String
  | green => "32"
  | red => "31"

/-- A text in a colour, after which the colour is reset. -/
def Colour.paint (colour : Colour) (text : String) : String :=
  "\x1b[" ++ colour.code ++ "m" ++ text ++ "\x1b[0m"

/-- A printed line in the colour that its first characters give it. -/
def paintPrinted (printed : String) : String :=
  match Colour.ofPrinted? printed.toList with
  | some colour => colour.paint printed
  | none => printed

/-- True of the characters from one to another one in the order of code points. -/
def isBetween (least greatest character : Char) : Bool :=
  least ≤ character && character ≤ greatest

/-- The text behind the parameters of an escape sequence: parameter characters,
then intermediate ones. -/
def behindParameters (characters : List Char) : List Char :=
  (characters.dropWhile (isBetween '0' '?')).dropWhile (isBetween ' ' '/')

/-- The text behind an escape sequence that begins behind an escape character: a
bracket, parameters, and a final character. -/
def behindEscape? : List Char → Option (List Char)
  | '[' :: rest =>
    match behindParameters rest with
    | final :: remaining => if isBetween '@' '~' final then some remaining else none
    | [] => none
  | _ => none

/-- What is left of a text behind an escape sequence is shorter than the text. -/
theorem behindEscape?_length {characters remaining : List Char}
    (found : behindEscape? characters = some remaining) :
    remaining.length < characters.length := by
  unfold behindEscape? at found
  split at found
  · rename_i rest
    have suffix : behindParameters rest <:+ rest :=
      (List.dropWhile_suffix _).trans (List.dropWhile_suffix _)
    have short := suffix.length_le
    split at found
    · rename_i final behind split
      split at found
      · cases found
        rw [split] at short
        simp only [List.length_cons] at short ⊢
        omega
      · contradiction
    · contradiction
  · contradiction

/-- A text without its escape sequences. -/
def withoutEscapes (characters : List Char) : List Char :=
  match characters with
  | [] => []
  | character :: rest =>
    if character = '\x1b' then
      match _found : behindEscape? rest with
      | some remaining => withoutEscapes remaining
      | none => character :: withoutEscapes rest
    else character :: withoutEscapes rest
termination_by characters.length
decreasing_by
  · have short := behindEscape?_length _found
    simp only [List.length_cons]
    omega
  all_goals simp

end GraphQLCanon.Comparison
