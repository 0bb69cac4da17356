import GraphQLCanon.Proofs.Pieces
import GraphQLCanon.Proofs.WrittenValues

/-!
# Pieces that spell tokens

Wherever a piece is written, it adds the same tokens: indentation and line feeds add
none, and both layouts of an argument list add the parentheses and the arguments. So
what is read back from a piece does not depend on the widths.
-/

namespace GraphQLCanon.Layout

open GraphQLCanon.Grammar
open GraphQLCanon.Lexical

/-- Where no directive is met there is none. -/
theorem Printing.directives_eq_nil {directives : List Grammar.Directive} {owner : DirectiveOwner}
    (none? : Printing.directiveOffence? (Grammar.directiveNames directives) owner = none) :
    directives = [] := by
  simpa [Printing.directiveOffence?, Grammar.directiveNames] using none?

namespace Piece

/-- A piece that adds its tokens in front of every delimited text. -/
def Spells (piece : Piece) (tokens : List Token) : Prop :=
  ∀ position, Lexical.Spells (piece position).toList tokens

/-- A piece that adds its tokens in front of every text. -/
def Closes (piece : Piece) (tokens : List Token) : Prop :=
  ∀ position, Lexical.Closes (piece position).toList tokens

/-- A piece that delimits what stands in front of it. -/
def Delimits (piece : Piece) : Prop :=
  ∀ position, Delimited (piece position).toList ∧ (piece position).toList ≠ []

/-- A piece that needs no delimiter and is one. -/
structure Seals (piece : Piece) (tokens : List Token) : Prop where
  closes : piece.Closes tokens
  delimits : piece.Delimits

variable {first second piece : Piece} {left right tokens : List Token}

/-- A piece that adds its tokens in front of every text does so in front of a delimited
one. -/
theorem Closes.spells (closes : piece.Closes tokens) : piece.Spells tokens :=
  fun position => (closes position).spells

/-- Two pieces that need no delimiter. -/
theorem Closes.append (one : first.Closes left) (two : second.Closes right) :
    (first ++ second).Closes (left ++ right) := by
  intro position
  have both := (one position).append (two (position.after (first position)))
  rw [← String.toList_append] at both
  exact both

/-- A piece that needs no delimiter, and one that does. -/
theorem Closes.append_spells (one : first.Closes left) (two : second.Spells right) :
    (first ++ second).Spells (left ++ right) := by
  intro position
  have both := (one position).append_spells (two (position.after (first position)))
  rw [← String.toList_append] at both
  exact both

/-- A piece that needs a delimiter, and one that delimits it. -/
theorem Spells.append_seals (one : first.Spells left) (two : second.Seals right) :
    (first ++ second).Closes (left ++ right) := by
  intro position
  obtain ⟨delimited, nonempty⟩ := two.delimits (position.after (first position))
  have both := (one position).append_closes (two.closes (position.after (first position)))
    delimited nonempty
  rw [← String.toList_append] at both
  exact both

/-- A piece that needs a delimiter, and one that delimits it. -/
theorem Spells.append (one : first.Spells left) (two : second.Spells right)
    (delimits : second.Delimits) : (first ++ second).Spells (left ++ right) := by
  intro position
  have both := Lexical.Spells.append (one position) (two (position.after (first position)))
    (delimits (position.after (first position))).1
  rw [← String.toList_append] at both
  exact both

/-- Only the front of a piece decides whether it delimits. -/
theorem Delimits.append (delimits : first.Delimits) (second : Piece) :
    (first ++ second).Delimits := by
  intro position
  obtain ⟨delimited, nonempty⟩ := delimits position
  change Delimited (first position ++ _).toList ∧ (first position ++ _).toList ≠ []
  rw [String.toList_append]
  exact ⟨delimited.append_of_ne_nil nonempty _, by simp [nonempty]⟩

/-- A piece that needs no delimiter and is one, and one that needs none. -/
theorem Seals.append (one : first.Seals left) (two : second.Closes right) :
    (first ++ second).Seals (left ++ right) :=
  ⟨one.closes.append two, one.delimits.append second⟩

/-- A text that needs no delimiter. -/
theorem closes_text {written : String} (closes : Lexical.Closes written.toList tokens) :
    (text written).Closes tokens :=
  fun _ => closes

/-- A text that needs a delimiter. -/
theorem spells_text {written : String} (spells : Lexical.Spells written.toList tokens) :
    (text written).Spells tokens :=
  fun _ => spells

/-- A text that delimits. -/
theorem delimits_text {written : String} (delimited : Delimited written.toList)
    (nonempty : written.toList ≠ []) : (text written).Delimits :=
  fun _ => ⟨delimited, nonempty⟩

/-- A text that begins with a delimiter. -/
theorem delimits_text_append {opening : String} (delimited : Delimited opening.toList)
    (nonempty : opening.toList ≠ []) (written : String) : (text (opening ++ written)).Delimits := by
  intro position
  rw [text, String.toList_append]
  exact ⟨delimited.append_of_ne_nil nonempty _, by simp [nonempty]⟩

/-- Indentation adds nothing. -/
theorem closes_spaces (position : Position) : Lexical.Closes position.spaces.toList [] := by
  apply closes_separators
  rw [List.all_eq_true]
  intro character inside
  rw [Position.spaces, String.toList_ofList] at inside
  rw [(List.mem_replicate.1 inside).2]
  rfl

/-- A text behind the indentation adds its own tokens. -/
theorem spells_indented {written : String} (spells : Lexical.Spells written.toList tokens) :
    (indented written).Spells tokens := by
  intro position
  rw [indented, String.toList_append]
  exact (closes_spaces position).append_spells spells

/-- A text behind the indentation adds its own tokens. -/
theorem closes_indented {written : String} (closes : Lexical.Closes written.toList tokens) :
    (indented written).Closes tokens := by
  intro position
  rw [indented, String.toList_append]
  exact (closes_spaces position).append closes

/-- Pieces that need no delimiters add their tokens in order. -/
theorem closes_concat {α : Type} {items : List α} {piece : α → Piece} {shown : α → List Token}
    (each : ∀ item ∈ items, (piece item).Closes (shown item)) :
    (concat items piece).Closes (items.flatMap shown) := by
  induction items with
  | nil => exact closes_text closes_nil
  | cons item others inductionHypothesis =>
    have one := each item List.mem_cons_self
    have more := inductionHypothesis fun other inside => each other (List.mem_cons_of_mem _ inside)
    exact one.append more

/-- A block adds its signs and its body. -/
theorem closes_block {opening closing : String} {body : Piece} {before behind : List Token}
    (opens : Lexical.Closes opening.toList before) (inside : body.Closes tokens)
    (shuts : Lexical.Closes closing.toList behind) :
    (block opening closing body).Closes (before ++ (tokens ++ behind)) := by
  have deep : (deeper body).Closes tokens := fun position => inside position.deeper
  exact (closes_text opens).append (deep.append (closes_indented shuts))

/-- A line feed adds nothing. -/
theorem closes_lineFeed : Lexical.Closes "\n".toList [] := closes_separators (by decide)

/-- A text at the end of a line needs no delimiter. -/
theorem closes_line {written : String} (spells : Lexical.Spells written.toList tokens) :
    Lexical.Closes (written ++ "\n").toList tokens := by
  have line := spells.append_closes closes_lineFeed (by decide) (by decide)
  rw [← String.toList_append, List.append_nil] at line
  exact line

/-- A text in front of a comma at the end of a line needs no delimiter. -/
theorem closes_commaLine {written : String} (spells : Lexical.Spells written.toList tokens) :
    Lexical.Closes (written ++ ",\n").toList tokens := by
  have comma : Lexical.Closes ",\n".toList [] := closes_separators (by decide)
  have line := spells.append_closes comma (by decide) (by decide)
  rw [← String.toList_append, List.append_nil] at line
  exact line

/-- A block that opens with a delimiter delimits. -/
theorem delimits_block {opening : String} (delimited : Delimited opening.toList)
    (nonempty : opening.toList ≠ []) (closing : String) (body : Piece) :
    (block opening closing body).Delimits :=
  (delimits_text delimited nonempty).append _

/-- A block in braces adds the braces and its body. -/
theorem seals_enclosed {body : Piece} (inside : body.Closes tokens) :
    (block " \x7b\n" "\x7d" body).Seals
      (.punctuator .openBrace :: (tokens ++ [.punctuator .closeBrace])) := by
  have opens : Lexical.Closes " \x7b\n".toList [.punctuator .openBrace] :=
    (closes_space.append (closes_punctuator .openBrace)).append closes_lineFeed
  exact ⟨closes_block opens inside (closes_punctuator .closeBrace),
    delimits_block (by decide) (by decide) _ _⟩

/-- The line feed behind a block in braces adds nothing. -/
theorem seals_braces {body : Piece} (inside : body.Closes tokens) :
    (braces body).Seals (.punctuator .openBrace :: (tokens ++ [.punctuator .closeBrace])) := by
  have line := (seals_enclosed inside).append (closes_text closes_lineFeed)
  rw [List.append_nil] at line
  rw [braces_eq]
  exact line

/-- The end of a line adds nothing. -/
theorem seals_lineFeed : (text "\n").Seals [] :=
  ⟨closes_text closes_lineFeed, delimits_text (by decide) (by decide)⟩

/-- An argument list adds the parentheses and its arguments, in either layout. -/
theorem seals_arguments {α : Type} {items : List α} {write : α → String}
    {shown : α → List Token}
    (each : ∀ item ∈ items, Lexical.Spells (write item).toList (shown item)) :
    (arguments (items.map write)).Seals
      (.punctuator .openParenthesis ::
        (items.flatMap shown ++ [.punctuator .closeParenthesis])) where
  closes := by
    intro position
    unfold arguments
    cases argumentsFit (items.map write) position with
    | true =>
      have inside := (spells_commas each).append_closes (closes_punctuator .closeParenthesis)
        (by decide) (by decide)
      have whole := (closes_punctuator .openParenthesis).append inside
      rw [cond_true, String.toList_append, String.toList_append]
      exact whole
    | false =>
      have lines : (concat (items.map write) fun argument => indented (argument ++ ",\n")).Closes
          (items.flatMap shown) := by
        rw [concat_map]
        exact closes_concat fun item inside => closes_indented (closes_commaLine (each item inside))
      have opens : Lexical.Closes "(\n".toList [.punctuator .openParenthesis] :=
        (closes_punctuator .openParenthesis).append closes_lineFeed
      exact closes_block opens lines (closes_punctuator .closeParenthesis) position
  delimits := by
    intro position
    unfold arguments
    cases argumentsFit (items.map write) position with
    | true => exact delimits_text_append (by decide) (by decide) _ position
    | false => exact delimits_block (by decide) (by decide) _ _ position

/-- A description adds itself. -/
theorem closes_description (value? : Option String) :
    (description value?).Closes (descriptionTokens value?) := by
  cases value? with
  | none => exact closes_text closes_nil
  | some value =>
    have spells := spells_token (legible_string value)
    apply closes_indented
    apply closes_line
    rw [QuotedString.write, String.toList_ofList]
    exact spells

/-- A described line adds the description and itself. -/
theorem closes_described {written : String} (value? : Option String)
    (closes : Lexical.Closes written.toList tokens) :
    (description value? ++ indented written).Closes (descriptionTokens value? ++ tokens) :=
  (closes_description value?).append (closes_indented closes)

end Piece

end GraphQLCanon.Layout
