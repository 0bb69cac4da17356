import GraphQLCanon.Proofs.Pieces
import GraphQLCanon.Proofs.TextPlaces

/-!
# Descriptions on one line

A description is written on a line of its own, whatever its text is: line breaks, control
characters, quotes and backslashes are escaped. The line is read back as one quoted string with
the same value, in front of anything that follows it. In particular no description is read as a
block string, since a quote can only follow the opening one when the line ends behind it.
-/

namespace GraphQLCanon.Lexical

/-- A written text is scanned as one quoted string with that value, in front of every delimited
text. -/
theorem scan_write (value : String) {rest : List Char} (delimited : Delimited rest) :
    scan ((QuotedString.write value).toList ++ rest) =
      ⟨⟨.string value, (QuotedString.write value).toList ++ rest⟩ :: (scan rest).lexemes,
        (scan rest).fault⟩ := by
  have spelled : (QuotedString.write value).toList = (Token.string value).spelling :=
    String.toList_ofList
  rw [spelled]
  exact scan_token (legible_string value) (.inr delimited)

/-- A written text has no line breaks. -/
theorem unbroken_write (value : String) :
    ∀ character ∈ (QuotedString.write value).toList, Text.isLineBreak character = false := by
  rw [QuotedString.write, String.toList_ofList]
  exact unbroken_encode value.toList

end GraphQLCanon.Lexical

namespace GraphQLCanon.Layout

open GraphQLCanon.Lexical

/-- Indentation is passed over in front of every text. -/
theorem Output.scan_spaces_append (output : Output) (rest : List Char) :
    scan (output.spaces.toList ++ rest) = scan rest := by
  refine scan_spacing_append ?_ rest
  rw [Output.spaces, String.toList_ofList, List.all_replicate]
  split <;> rfl

/-- A description adds to an output one line: as many spaces as an indentation has at this depth,
a text without line breaks, and a line feed. Nothing else changes but the line length, which is
zero then. By itself the text is scanned as one quoted string that denotes the description. The
whole line is scanned so as well, whatever follows it. -/
theorem pushDescription_line (output : Output) (description : String) :
    let spaces := String.ofList (List.replicate (output.indentWidth * output.depth).toNat ' ')
    ∃ written : String,
      output.pushDescription (some description) =
          { output with
            text := output.text ++ (spaces ++ written ++ "\n")
            lineLength := 0 } ∧
        '\n' ∉ written.toList ∧ '\r' ∉ written.toList ∧
        scan written.toList = ⟨[⟨.string description, written.toList⟩], none⟩ ∧
        ∀ rest, scan ((spaces ++ written ++ "\n").toList ++ rest) =
          ⟨⟨.string description, written.toList ++ '\n' :: rest⟩ :: (scan rest).lexemes,
            (scan rest).fault⟩ := by
  intro spaces
  have indentation : spaces = output.spaces := rfl
  have absent {character : Char} (breaks : Text.isLineBreak character = true) :
      character ∉ (QuotedString.write description).toList := by
    intro inside
    rw [unbroken_write description character inside] at breaks
    contradiction
  refine ⟨QuotedString.write description, ?_, absent rfl, absent rfl, ?_, fun rest => ?_⟩
  · have behind : lineLengthAfter output.lineLength
        (output.spaces ++ (QuotedString.write description ++ "\n")).toList = 0 := by
      rw [← String.append_assoc, String.toList_append]
      exact lineLengthAfter_feed _ _
    rw [Output.pushDescription, Output.pushIndented, Output.push, behind, String.append_assoc,
      indentation]
  · have nothing : scan [] = ⟨[], none⟩ := scan_of_skipped_nil rfl
    have alone := scan_write description delimited_nil
    rwa [List.append_nil, nothing] at alone
  · have feed : Delimited ('\n' :: rest) := by
      rw [delimited_cons]
      decide
    have line : (output.spaces ++ QuotedString.write description ++ "\n").toList ++ rest =
        output.spaces.toList ++ ((QuotedString.write description).toList ++ '\n' :: rest) := by
      simp [String.toList_append]
    rw [indentation, line, output.scan_spaces_append, scan_write description feed, scan_lineFeed]

/-- The empty description does not open a block string with the quotes behind its line. -/
example : (scan "\"\"\n\"\"\"a\"\"\"".toList).tokens = [.string "", .blockString "a"] := by
  cbv

end GraphQLCanon.Layout
