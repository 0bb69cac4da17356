import GraphQLCanon.Proofs.Nesting
import GraphQLCanon.Proofs.Outlines

/-!
# Rows that stand where they belong

The depth of a line is the number of brackets that are open in front of it, less one if it
begins with a closing bracket, and no empty line stands next to another one. Both are kept
track of from line to line. A row keeps to them under all widths, since each layout of an
argument list opens and closes the same brackets.
-/

namespace GraphQLCanon.Layout

open GraphQLCanon.Lexical

/-- What is known at the beginning of a line: the number of open brackets, and whether an
empty line may stand there. -/
structure Footing where
  level : Nat
  roomy : Bool
  deriving DecidableEq, Repr

/-- Lines stand where they belong between two footings. A line is woven from its tokens, or
empty. -/
inductive Stands : Footing → List Line → Footing → Prop
  | nil (footing : Footing) : Stands footing [] footing
  | gap {level : Nat} {lines : List Line} {last : Footing}
    (below : Stands ⟨level, false⟩ lines last) : Stands ⟨level, true⟩ (⟨0, ""⟩ :: lines) last
  | line {level depth : Nat} {roomy : Bool} {text : String} {first : Token} {others : List Token}
    {lines : List Line} {last : Footing} (woven : Woven text.toList (first :: others))
    (placed : level = depth + if first.shuts then 1 else 0)
    (below : Stands ⟨nesting level (first :: others), true⟩ lines last) :
    Stands ⟨level, roomy⟩ (⟨depth, text⟩ :: lines) last

/-- Lines under others stand where they belong. -/
theorem Stands.append {first middle last : Footing} {upper lower : List Line}
    (one : Stands first upper middle) (two : Stands middle lower last) :
    Stands first (upper ++ lower) last := by
  induction one with
  | nil footing => exact two
  | gap below inductionHypothesis => exact .gap (inductionHypothesis two)
  | line woven placed below inductionHypothesis =>
    exact .line woven placed (inductionHypothesis two)

/-- A text that closes the brackets that it opens, and no others. -/
def Whole (text : String) : Prop := ∃ tokens, Woven text.toList tokens ∧ Balanced tokens

/-- A text that prolongs every woven one by some tokens. -/
def Prolongs (ending : String) (tokens : List Token) : Prop :=
  ∀ {text : List Char} {front : List Token}, Woven text front →
    Woven (text ++ ending.toList) (front ++ tokens)

/-- A text that prolongs every woven one and leaves as many brackets open as there were. -/
def Lengthens (ending : String) : Prop := ∃ tokens, Prolongs ending tokens ∧ Balanced tokens

section Texts

variable {text ending : String} {written : List Char} {tokens : List Token}

/-- The empty text prolongs others by no tokens. -/
theorem prolongs_empty : Prolongs "" [] := by
  intro text front woven
  simpa using woven

/-- One prolongation behind another. -/
theorem Prolongs.append {one two : String} {first second : List Token} (left : Prolongs one first)
    (right : Prolongs two second) : Prolongs (one ++ two) (first ++ second) := by
  intro text front woven
  rw [String.toList_append, ← List.append_assoc, ← List.append_assoc]
  exact right (left woven)

/-- What is woven prolongs a text behind spacing that delimits, or when it is delimited
itself. -/
theorem prolongs_woven {gap : List Char} (woven : Woven written tokens)
    (spaced : gap.all isSpacing = true) (delimited : Delimited (gap ++ written))
    (spelled : ending.toList = gap ++ written) : Prolongs ending tokens := by
  intro text front before
  rw [spelled]
  exact before.append woven gap spaced (.inr delimited)

/-- An opening brace behind a space. -/
theorem prolongs_brace : Prolongs " \x7b" [.punctuator .openBrace] :=
  prolongs_woven (Woven.sign .openBrace) (rfl : [' '].all isSpacing = true) (by decide) rfl

/-- An opening parenthesis. -/
theorem prolongs_parenthesis : Prolongs "(" [.punctuator .openParenthesis] :=
  prolongs_woven (Woven.sign .openParenthesis) (rfl : [].all isSpacing = true) (by decide) rfl

/-- The empty text lengthens others. -/
theorem lengthens_empty : Lengthens "" := ⟨[], prolongs_empty, balanced_nil⟩

/-- A whole text that is delimited lengthens others. -/
theorem Whole.lengthens (whole : Whole text) (delimited : Delimited text.toList) :
    Lengthens text := by
  obtain ⟨tokens, woven, balanced⟩ := whole
  exact ⟨tokens, prolongs_woven woven (rfl : [].all isSpacing = true) delimited rfl, balanced⟩

/-- A whole text behind a space lengthens others. -/
theorem Whole.spaced (whole : Whole text) : Lengthens (" " ++ text) := by
  obtain ⟨tokens, woven, balanced⟩ := whole
  exact ⟨tokens, prolongs_woven woven (rfl : [' '].all isSpacing = true)
    (.append_of_ne_nil (by decide) (by decide) _) String.toList_append, balanced⟩

/-- A whole text is whole when it is lengthened. -/
theorem Whole.append (whole : Whole text) (lengthens : Lengthens ending) :
    Whole (text ++ ending) := by
  obtain ⟨own, woven, balanced⟩ := whole
  obtain ⟨tokens, prolongs, more⟩ := lengthens
  refine ⟨own ++ tokens, ?_, balanced.append more⟩
  rw [String.toList_append]
  exact prolongs woven

/-- A comma behind a whole text. -/
theorem Whole.comma (whole : Whole text) : Whole (text ++ ",") := by
  obtain ⟨tokens, woven, balanced⟩ := whole
  refine ⟨tokens, ?_, balanced⟩
  rw [String.toList_append]
  exact woven.comma

/-- A legible name is whole. -/
theorem whole_name {name : String} (legible : (Token.name name).Legible) : Whole name :=
  ⟨[.name name], .token legible, fun _ => rfl⟩

/-- Whole texts with a comma between each two are whole. -/
theorem whole_commas {texts : List String} (nonempty : texts ≠ [])
    (each : ∀ text ∈ texts, Whole text) : Whole (", ".intercalate texts) := by
  induction texts with
  | nil => exact absurd rfl nonempty
  | cons first others inductionHypothesis =>
    have one := each first List.mem_cons_self
    cases others with
    | nil => simpa using one
    | cons second others =>
      obtain ⟨tokens, woven, balanced⟩ := inductionHypothesis (by simp)
        fun text inside => each text (List.mem_cons_of_mem _ inside)
      have behind : Prolongs (", " ++ ", ".intercalate (second :: others)) tokens :=
        prolongs_woven woven (rfl : ", ".toList.all isSpacing = true)
          (.append_of_ne_nil (by decide) (by decide) _) String.toList_append
      rw [String.intercalate_cons_cons, String.append_assoc]
      exact one.append ⟨tokens, behind, balanced⟩

/-- A whole text in parentheses lengthens others. -/
theorem Whole.parenthesised (whole : Whole text) :
    Whole ("(" ++ text ++ ")") ∧ Lengthens ("(" ++ text ++ ")") := by
  obtain ⟨tokens, woven, balanced⟩ := whole
  have pair : Balanced [.punctuator .openParenthesis, .punctuator .closeParenthesis] :=
    fun _ => rfl
  have enclosed := Grammar.woven_enclosed .openParenthesis .closeParenthesis (by decide) woven
  have spelled : ("(" ++ text ++ ")").toList = Punctuator.openParenthesis.spelling.toList ++
      (text.toList ++ Punctuator.closeParenthesis.spelling.toList) := by
    simp [Punctuator.spelling]
  have whole : Whole ("(" ++ text ++ ")") := ⟨_, spelled ▸ enclosed, balanced.enclosed pair⟩
  refine ⟨whole, whole.lengthens ?_⟩
  rw [spelled]
  exact .append_of_ne_nil (by decide) (by decide) _

end Texts

namespace Row

/-- Rows that stand where they belong between two numbers of open brackets, under all widths
and wherever an empty line may stand above them. -/
def Lead (rows : List Row) (level next : Nat) : Prop :=
  ∀ indentWidth maxWidth roomy, Stands ⟨level, roomy⟩ (linesEach rows indentWidth maxWidth)
    ⟨next, true⟩

/-- Rows that stand where they belong and leave as many brackets open as there were. There may
be none, and the last one may be an empty line. -/
def Fill (rows : List Row) (level : Nat) : Prop :=
  ∀ indentWidth maxWidth roomy, ∃ room, Stands ⟨level, roomy⟩
    (linesEach rows indentWidth maxWidth) ⟨level, room⟩

/-- Rows of which the last one may be prolonged by any tokens. -/
def Front (rows : String → List Row) (level : Nat) : Prop :=
  ∀ ending tokens, Prolongs ending tokens → Lead (rows ending) level (nesting level tokens)

variable {rows upper lower inner : List Row} {head : String → List Row} {level next last : Nat}

/-- Rows that lead from a level to itself fill it. -/
theorem Lead.fill (lead : Lead rows level level) : Fill rows level :=
  fun indentWidth maxWidth roomy => ⟨true, lead indentWidth maxWidth roomy⟩

/-- Rows under others. -/
theorem Lead.append (one : Lead upper level next) (two : Lead lower next last) :
    Lead (upper ++ lower) level last := by
  intro indentWidth maxWidth roomy
  rw [linesEach_append]
  exact (one _ _ _).append (two _ _ _)

/-- No rows fill every level. -/
theorem fill_nil (level : Nat) : Fill [] level := fun _ _ roomy => ⟨roomy, .nil _⟩

/-- Rows under others fill a level. -/
theorem Fill.append (one : Fill upper level) (two : Fill lower level) :
    Fill (upper ++ lower) level := by
  intro indentWidth maxWidth roomy
  obtain ⟨middle, first⟩ := one indentWidth maxWidth roomy
  obtain ⟨room, second⟩ := two indentWidth maxWidth middle
  rw [linesEach_append]
  exact ⟨room, first.append second⟩

/-- Rows under those that fill a level. -/
theorem Fill.lead (one : Fill upper level) (two : Lead lower level next) :
    Lead (upper ++ lower) level next := by
  intro indentWidth maxWidth roomy
  obtain ⟨middle, first⟩ := one indentWidth maxWidth roomy
  rw [linesEach_append]
  exact first.append (two _ _ _)

/-- Rows that may be prolonged under those that fill a level. -/
theorem Fill.front (one : Fill upper level) (two : Front head level) :
    Front (fun ending => upper ++ head ending) level :=
  fun _ _ prolongs => one.lead (two _ _ prolongs)

/-- Rows of items fill a level when those of each item do. -/
theorem fill_flatMap {α : Type} {items : List α} {rows : α → List Row}
    (each : ∀ item ∈ items, Fill (rows item) level) : Fill (items.flatMap rows) level := by
  induction items with
  | nil => exact fill_nil level
  | cons item others inductionHypothesis =>
    rw [List.flatMap_cons]
    exact (each item List.mem_cons_self).append
      (inductionHypothesis fun other inside => each other (List.mem_cons_of_mem _ inside))

/-- An empty line under rows that leave room for it. -/
theorem Lead.gap (lead : Lead rows level level) : Fill (rows ++ [.gap]) level := by
  intro indentWidth maxWidth roomy
  rw [linesEach_append]
  exact ⟨false, (lead _ _ _).append (.gap (.nil _))⟩

/-- Rows of items with an empty line between each two, when those of each item leave room. -/
theorem lead_intercalate_gap {outlines : List (List Row)} (nonempty : outlines ≠ [])
    (each : ∀ rows ∈ outlines, Lead rows level level) :
    Lead ([gap].intercalate outlines) level level := by
  induction outlines with
  | nil => exact absurd rfl nonempty
  | cons first others inductionHypothesis =>
    have one := each first List.mem_cons_self
    cases others with
    | nil => simpa using one
    | cons second others =>
      have more := inductionHypothesis (by simp)
        fun rows inside => each rows (List.mem_cons_of_mem _ inside)
      rw [List.intercalate_cons_cons]
      exact one.gap.lead more

/-- A line may be prolonged when it is a whole text. -/
theorem front_line {text : String} (whole : Whole text) (depth : Nat) :
    Front (fun ending => [.line depth (text ++ ending)]) depth := by
  obtain ⟨own, woven, balanced⟩ := whole
  obtain ⟨first, others, rfl⟩ := List.exists_cons_of_ne_nil woven.ne_nil
  intro ending tokens prolongs indentWidth maxWidth roomy
  have line := prolongs woven
  rw [← String.toList_append] at line
  have level : nesting depth (first :: (others ++ tokens)) = nesting depth tokens := by
    rw [← List.cons_append, nesting_append, balanced]
  have below : Stands ⟨nesting depth (first :: (others ++ tokens)), true⟩ []
      ⟨nesting depth tokens, true⟩ := level ▸ .nil _
  exact .line line (by simp [balanced.head_opens]) below

/-- Rows of which the last one is lengthened. -/
theorem Front.ended (heads : Front head level) {ending : String} (lengthens : Lengthens ending) :
    Lead (head ending) level level := by
  obtain ⟨tokens, prolongs, balanced⟩ := lengthens
  have lead := heads _ _ prolongs
  rw [balanced] at lead
  exact lead

/-- Rows of which the last one is left as it is. -/
theorem Front.lead (heads : Front head level) : Lead (head "") level level :=
  heads.ended lengthens_empty

/-- A whole text on a line of its own. -/
theorem lead_line {text : String} (whole : Whole text) (depth : Nat) :
    Lead [.line depth text] depth depth := by
  have line := (front_line whole depth).lead
  rw [String.append_empty] at line
  exact line

/-- Rows that may be prolonged may be so when their last line is lengthened. -/
theorem Front.append (heads : Front head level) {more : String} (lengthens : Lengthens more) :
    Front (fun ending => head (more ++ ending)) level := by
  obtain ⟨tokens, prolongs, balanced⟩ := lengthens
  intro ending others behind
  have lead := heads _ _ (prolongs.append behind)
  rw [nesting_append, balanced] at lead
  exact lead

/-- A line that begins with a closing bracket. -/
theorem lead_closing {closing ending : String} {sign : Token} {tokens : List Token}
    (woven : Woven closing.toList [sign]) (shuts : sign.shuts = true)
    (prolongs : Prolongs ending tokens) (depth : Nat) :
    Lead [.line depth (closing ++ ending)] (depth + 1) (nesting depth tokens) := by
  intro indentWidth maxWidth roomy
  have line := prolongs woven
  rw [← String.toList_append] at line
  have level : nesting (depth + 1) (sign :: tokens) = nesting depth tokens := by
    rw [nesting, List.foldl_cons, nest_of_shuts shuts, Nat.add_sub_cancel]
    rfl
  have below : Stands ⟨nesting (depth + 1) (sign :: tokens), true⟩ []
      ⟨nesting depth tokens, true⟩ := level ▸ .nil _
  exact .line line (by simp [shuts]) below

/-- Rows in brackets: the opening one ends a line, and the closing one begins a line that may be
prolonged. -/
theorem Front.enclosed (heads : Front head level) (fill : Fill inner (level + 1))
    {opening closing : String} {one two : Token} (opens : Prolongs opening [one])
    (deeper : one.nest level = level + 1) (woven : Woven closing.toList [two])
    (shuts : two.shuts = true) :
    Front (fun ending => head opening ++ (inner ++ [.line level (closing ++ ending)])) level := by
  intro ending tokens prolongs
  have above : Lead (head opening) level (level + 1) := deeper ▸ heads _ _ opens
  exact above.append (fill.lead (lead_closing woven shuts prolongs level))

/-- Rows in braces. -/
theorem Front.braces (heads : Front head level) (fill : Fill inner (level + 1)) :
    Lead (head " \x7b" ++ (inner ++ [.line level "\x7d"])) level level :=
  (heads.enclosed fill prolongs_brace rfl (Woven.sign .closeBrace) rfl).lead

/-- Rows in parentheses. -/
theorem Front.parentheses (heads : Front head level) (fill : Fill inner (level + 1)) :
    Front (fun ending => head "(" ++ (inner ++ [.line level (")" ++ ending)])) level :=
  heads.enclosed fill prolongs_parenthesis rfl (Woven.sign .closeParenthesis) rfl

/-- An argument list behind a whole text stands where it belongs in both of its layouts. -/
theorem front_listed {header : String} {arguments : List String} (whole : Whole header)
    (nonempty : arguments ≠ []) (each : ∀ argument ∈ arguments, Whole argument) (depth : Nat) :
    Front (fun ending => [.listed ⟨depth, header, arguments⟩ ending]) depth := by
  have spread : Fill (arguments.flatMap fun argument => [.line (depth + 1) (argument ++ ",")])
      (depth + 1) :=
    fill_flatMap fun argument inside => (lead_line (each argument inside).comma _).fill
  have wrapped := (front_line whole depth).parentheses spread
  have inline := (front_line whole depth).append (whole_commas nonempty each).parenthesised.2
  intro ending tokens prolongs indentWidth maxWidth roomy
  rw [linesEach, List.flatMap_singleton, lines, ArgumentList.lines]
  split
  · have line := inline ending tokens prolongs indentWidth maxWidth roomy
    simpa [linesEach, Row.lines, ArgumentList.inline, ArgumentList.joined, String.append_assoc]
      using line
  · have lines := wrapped ending tokens prolongs indentWidth maxWidth roomy
    simpa [linesEach, Row.lines, ArgumentList.wrapped, ArgumentList.spread, List.flatMap_assoc,
      List.map_eq_flatMap] using lines

/-- The row of a description. -/
theorem fill_description {value? : Option String}
    (legible : Grammar.AllLegible (Grammar.descriptionTokens value?)) (depth : Nat) :
    Fill (Piece.descriptionRows depth value?) depth := by
  cases value? with
  | none => exact fill_nil depth
  | some value =>
    simp only [Grammar.descriptionTokens, Grammar.allLegible_cons] at legible
    have whole : Whole (QuotedString.write value) := by
      refine ⟨[.string value], ?_, fun _ => rfl⟩
      rw [QuotedString.write, String.toList_ofList]
      exact .token legible.1
    exact (lead_line whole depth).fill

end Row

end GraphQLCanon.Layout
