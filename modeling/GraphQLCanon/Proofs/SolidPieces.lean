import Mathlib.Data.List.Forall2
import GraphQLCanon.Proofs.Trimming
import GraphQLCanon.Proofs.WrittenPieces

/-!
# Definitions on their own

At the outermost level a definition is a piece that begins and ends with a character
that is not blank, and a line feed behind it. So a document is its definitions with an
empty line between each two, and stripping it of blanks takes the last two line feeds
away and nothing else.
-/

namespace GraphQLCanon.Layout

open GraphQLCanon.Lexical
open GraphQLCanon.Text

/-- A text that begins with a character that is not blank. -/
def BeginsSolid (written : String) : Prop :=
  ∃ first rest, written.toList = first :: rest ∧ isBlank first = false

/-- A text that ends with a character that is not blank. -/
def EndsSolid (written : String) : Prop :=
  ∃ front last, written.toList = front ++ [last] ∧ isBlank last = false

/-- Only the front of a text decides how it begins. -/
theorem BeginsSolid.append {written : String} (begins : BeginsSolid written) (other : String) :
    BeginsSolid (written ++ other) := by
  obtain ⟨first, rest, spelled, solid⟩ := begins
  exact ⟨first, rest ++ other.toList, by simp [spelled], solid⟩

/-- Only the back of a text decides how it ends. -/
theorem EndsSolid.append {written : String} (ends : EndsSolid written) (other : String) :
    EndsSolid (other ++ written) := by
  obtain ⟨front, last, spelled, solid⟩ := ends
  exact ⟨other.toList ++ front, last, by simp [spelled], solid⟩

/-- Texts with others between them end as the last one does. -/
theorem endsSolid_intercalate {separator : String} {parts : List String} (nonempty : parts ≠ [])
    (ends : ∀ part ∈ parts, EndsSolid part) : EndsSolid (separator.intercalate parts) := by
  induction parts with
  | nil => exact absurd rfl nonempty
  | cons first others inductionHypothesis =>
    cases others with
    | nil => simpa using ends first List.mem_cons_self
    | cons second others =>
      have more := inductionHypothesis (by simp) fun part inside =>
        ends part (List.mem_cons_of_mem _ inside)
      rw [String.intercalate_cons_cons]
      exact more.append _

/-- A text with solid ends is trimmed of blanks, and not empty. -/
theorem BeginsSolid.trimmed {written : String} (begins : BeginsSolid written)
    (ends : EndsSolid written) : Trimmed isBlank written.toList ∧ written.toList ≠ [] := by
  obtain ⟨first, rest, opened, solidFirst⟩ := begins
  obtain ⟨front, last, closed, solidLast⟩ := ends
  refine ⟨⟨fun item inFront => ?_, fun item atEnd => ?_⟩, by simp [opened]⟩
  · obtain rfl : first = item := by simpa [opened] using inFront
    exact solidFirst
  · obtain rfl : last = item := by simpa [closed] using atEnd
    exact solidLast

/-- A legible name begins and ends with characters that are not blank. -/
theorem solid_name {name : String} (legible : (Token.name name).Legible) :
    BeginsSolid name ∧ EndsSolid name :=
  legible.solid

namespace Piece

/-- A piece that begins with a character that is not blank, where nothing is
indented. -/
def Begins (piece : Piece) : Prop :=
  ∀ position, position.depth = 0 → BeginsSolid (piece position)

/-- A piece that ends with a character that is not blank. -/
def Ends (piece : Piece) : Prop := ∀ position, EndsSolid (piece position)

/-- A piece that spells tokens, with no blanks around them. -/
structure Solid (core : Piece) (tokens : List Token) : Prop where
  spells : core.Spells tokens
  begins : core.Begins
  ends : core.Ends

/-- A piece that can stand behind another one: it begins with a delimiter, and ends with
a character that is not blank. -/
structure Trails (piece : Piece) (tokens : List Token) : Prop where
  spells : piece.Spells tokens
  delimits : piece.Delimits
  ends : piece.Ends

/-- A piece that can stand behind another one, or nothing. -/
def MayTrail (piece : Piece) (tokens : List Token) : Prop :=
  piece.Trails tokens ∨ piece = text "" ∧ tokens = []

variable {first second piece : Piece} {left right : List Token}

/-- Only the front of a piece decides how it begins. -/
theorem Begins.append (begins : first.Begins) (second : Piece) : (first ++ second).Begins :=
  fun position outermost => (begins position outermost).append _

/-- Only the back of a piece decides how it ends. -/
theorem Ends.append (ends : second.Ends) (first : Piece) : (first ++ second).Ends :=
  fun position => (ends (position.after (first position))).append _

/-- What stands behind a solid piece prolongs it. -/
theorem Solid.append (solid : first.Solid left) (trails : second.Trails right) :
    (first ++ second).Solid (left ++ right) where
  spells := solid.spells.append trails.spells trails.delimits
  begins := solid.begins.append second
  ends := trails.ends.append first

/-- What stands behind a solid piece prolongs it, if there is anything. -/
theorem Solid.append_mayTrail (solid : first.Solid left) (mayTrail : second.MayTrail right) :
    (first ++ second).Solid (left ++ right) := by
  rcases mayTrail with trails | ⟨rfl, rfl⟩
  · exact solid.append trails
  · rw [append_empty, List.append_nil]
    exact solid

/-- Nothing is indented at the outermost level. -/
theorem begins_indented {written : String} (begins : BeginsSolid written) :
    (indented written).Begins := by
  intro position outermost
  have flush : position.spaces = "" := by simp [Position.spaces, outermost]
  rw [indented, flush, String.empty_append]
  exact begins

/-- An indented text ends as it does. -/
theorem ends_indented {written : String} (ends : EndsSolid written) : (indented written).Ends :=
  fun _ => ends.append _

/-- A description begins with a quote, and what is described begins the line where there
is none. -/
theorem begins_described {written : String} (value? : Option String)
    (begins : BeginsSolid written) : (description value? ++ indented written).Begins := by
  cases value? with
  | none =>
    rw [description, empty_append]
    exact begins_indented begins
  | some value =>
    have quote : BeginsSolid (Lexical.QuotedString.write value ++ "\n") := by
      refine BeginsSolid.append ?_ _
      exact ⟨'"', _, by rw [Lexical.QuotedString.write, String.toList_ofList]; rfl, by decide⟩
    exact (begins_indented quote).append _

/-- A text ends as it does. -/
theorem ends_text {written : String} (ends : EndsSolid written) : (text written).Ends :=
  fun _ => ends

/-- A block ends as its closing sign does. -/
theorem ends_block {closing : String} (ends : EndsSolid closing) (opening : String)
    (body : Piece) : (block opening closing body).Ends :=
  ((ends_indented ends).append _).append _

/-- The closing brace of a block is not blank. -/
theorem endsSolid_brace : EndsSolid "\x7d" := ⟨[], '\x7d', rfl, by decide⟩

/-- A block in braces stands behind a piece. -/
theorem trails_enclosed {body : Piece} {tokens : List Token} (inside : body.Closes tokens) :
    (block " \x7b\n" "\x7d" body).Trails
      (.punctuator .openBrace :: (tokens ++ [.punctuator .closeBrace])) :=
  ⟨(seals_enclosed inside).closes.spells, (seals_enclosed inside).delimits,
    ends_block endsSolid_brace _ _⟩

/-- A piece without its last character. -/
def core (piece : Piece) : Piece := fun position =>
  String.ofList (piece position).toList.dropLast

/-- The piece in front of a line feed is what is left without it. -/
theorem core_line (piece : Piece) : (piece ++ text "\n").core = piece := by
  funext position
  change String.ofList (piece position ++ "\n").toList.dropLast = piece position
  simp

/-- A piece that spells tokens with no blanks around them, and a line feed behind it. -/
def Rounded (piece : Piece) (tokens : List Token) : Prop :=
  piece.core.Solid tokens ∧ piece = piece.core ++ text "\n"

/-- A line feed behind a solid piece rounds it off. -/
theorem Solid.rounded {piece : Piece} {tokens : List Token} (solid : piece.Solid tokens) :
    (piece ++ text "\n").Rounded tokens := by
  rw [Rounded, core_line]
  exact ⟨solid, rfl⟩

variable {α : Type} {items : List α} {piece : α → Piece}

/-- At the beginning of a line, what is written behind whole lines begins a line. -/
theorem after_line {position : Position} (flush : position.lineLength = 0) (written : String) :
    position.after (written ++ "\n") = position := by
  obtain ⟨indentWidth, maxWidth, depth, lineLength⟩ := position
  obtain rfl : lineLength = 0 := flush
  simp [Position.after, lineLengthAfter_append, lineLengthAfter]

/-- Rounded pieces with a line feed behind each, at the beginning of a line. -/
theorem toList_concat_rounded {position : Position} (flush : position.lineLength = 0)
    (rounded : ∀ item ∈ items, ∃ tokens, (piece item).Rounded tokens) :
    (concat items (fun item => piece item ++ text "\n") position).toList =
      (items.map fun item => ((piece item).core position).toList).flatMap
        (· ++ "\n\n".toList) := by
  induction items with
  | nil => rfl
  | cons first others inductionHypothesis =>
    have more := inductionHypothesis fun item inside => rounded item (List.mem_cons_of_mem _ inside)
    obtain ⟨-, -, line⟩ := rounded first List.mem_cons_self
    have written : (piece first ++ text "\n") position =
        (piece first).core position ++ "\n" ++ "\n" := by
      conv => lhs; rw [line]
      rfl
    change ((piece first ++ text "\n") position ++
      concat others (fun item => piece item ++ text "\n")
        (position.after ((piece first ++ text "\n") position))).toList = _
    rw [written, after_line flush, String.toList_append, more]
    simp

/-- A document of rounded pieces, stripped of blanks, is their cores with an empty line
between each two. -/
theorem strip_concat_rounded {position : Position} (flush : position.lineLength = 0)
    (outermost : position.depth = 0) (nonempty : items ≠ [])
    (rounded : ∀ item ∈ items, ∃ tokens, (piece item).Rounded tokens) :
    strip (concat items (fun item => piece item ++ text "\n") position) =
      "\n\n".intercalate (items.map fun item => (piece item).core position) := by
  have cores : (items.map fun item => ((piece item).core position).toList) ≠ [] := by
    simpa using nonempty
  have each : ∀ core ∈ items.map fun item => ((piece item).core position).toList,
      Trimmed isBlank core ∧ core ≠ [] := by
    intro core inside
    obtain ⟨item, among, rfl⟩ := List.mem_map.1 inside
    obtain ⟨tokens, solid, -⟩ := rounded item among
    exact (solid.begins position outermost).trimmed (solid.ends position)
  have whole := trimEnds_append [] "\n\n".toList (by simp) (List.all_eq_true.1 (by decide))
    (trimmed_intercalate "\n\n".toList cores each).1
  apply String.toList_injective
  rw [toList_strip, toList_concat_rounded flush rounded,
    flatten_append_eq_intercalate _ cores]
  simpa [Function.comp_def] using whole

/-- A document of rounded pieces spells the tokens of all of them. -/
theorem spells_strip_concat {σ : Type} {sources : List σ} {shown : σ → List Token}
    (rounded : List.Forall₂ (fun source item => (piece item).Rounded (shown source)) sources items)
    (nonempty : items ≠ []) (indentWidth maxWidth : Int) :
    Lexical.Spells (strip (concat items (fun item => piece item ++ text "\n")
      (.start indentWidth maxWidth))).toList (sources.flatMap shown) := by
  obtain ⟨lengths, pairs⟩ := List.forall₂_iff_zip.1 rounded
  have sources_eq : (sources.zip items).map Prod.fst = sources :=
    List.map_fst_zip (Nat.le_of_eq lengths)
  have items_eq : (sources.zip items).map Prod.snd = items :=
    List.map_snd_zip (Nat.le_of_eq lengths.symm)
  have each : ∀ item ∈ items, ∃ tokens, (piece item).Rounded tokens := by
    rw [← items_eq, List.forall_mem_map]
    exact fun pair inside => ⟨shown pair.1, pairs inside⟩
  have spelled : ∀ pair ∈ sources.zip items,
      Lexical.Spells ((piece pair.2).core (.start indentWidth maxWidth)).toList (shown pair.1) :=
    fun pair inside => (pairs inside).1.spells _
  have between : Lexical.Closes "\n\n".toList [] := closes_separators (by decide)
  have whole := Grammar.spells_parted between (by decide) (by decide) spelled
  rw [strip_concat_rounded rfl rfl nonempty each]
  rw [← List.flatMap_map, sources_eq] at whole
  have cores : (items.map fun item => (piece item).core (.start indentWidth maxWidth)) =
      (sources.zip items).map fun pair => (piece pair.2).core (.start indentWidth maxWidth) := by
    conv => lhs; rw [← items_eq, List.map_map]
    rfl
  rw [cores]
  exact whole

end Piece

end GraphQLCanon.Layout
