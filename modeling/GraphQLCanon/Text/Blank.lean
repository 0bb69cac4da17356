/-!
# Blank characters

Two classes of blank character are in use. White space is the Unicode property
of that name. Blanks are white space together with the four information
separators; a text is stripped of blanks at both ends before it is compared or
written. The byte order mark belongs to neither class.
-/

namespace GraphQLCanon.Text

/-- The characters with the Unicode property `White_Space`. -/
def isWhiteSpace (character : Char) : Bool :=
  let code := character.toNat
  (0x09 ≤ code && code ≤ 0x0D) || code == 0x20 || code == 0x85 || code == 0xA0 ||
    code == 0x1680 || (0x2000 ≤ code && code ≤ 0x200A) || code == 0x2028 ||
    code == 0x2029 || code == 0x202F || code == 0x205F || code == 0x3000

/-- White space or one of the information separators U+001C to U+001F. -/
def isBlank (character : Char) : Bool :=
  isWhiteSpace character || (0x1C ≤ character.toNat && character.toNat ≤ 0x1F)

/-- Items without those of a class at both ends. -/
def trimEnds {α : Type} (class? : α → Bool) (items : List α) : List α :=
  ((items.dropWhile class?).reverse.dropWhile class?).reverse

/-- A text without the blanks at its two ends. -/
def strip (text : String) : String :=
  String.ofList (trimEnds isBlank text.toList)

/-- The characters of a stripped text are those of the text without the outer
blanks. -/
theorem toList_strip (text : String) : (strip text).toList = trimEnds isBlank text.toList := by
  simp [strip]

end GraphQLCanon.Text
