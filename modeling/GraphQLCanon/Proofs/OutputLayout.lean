import GraphQLCanon.Proofs.ArgumentWrapping
import GraphQLCanon.Proofs.StandingQueries
import GraphQLCanon.Proofs.StandingSchemas
import GraphQLCanon.Proofs.TextPlaces

/-!
# Layout of the canonical form

What the canonical form looks like line by line, as a text. The lines are those between line
feeds, and some of them belong to block strings, which are written as they are. Which ones
these are, and which brackets are open in front of a line, is read from a scan of the text,
so nothing here depends on how the text came about. That the text is laid out follows line
by line from the outline, which stands where it belongs.
-/

namespace GraphQLCanon.Layout

open GraphQLCanon.Lexical

/-- What stands in front of the beginning of a line. -/
def BeginsLine (before : List Char) : Prop := before = [] ∨ ∃ above, before = above ++ ['\n']

/-- What stands behind the end of a line. -/
def EndsLine (behind : List Char) : Prop := behind = [] ∨ ∃ below, behind = '\n' :: below

/-- How the lines of a text are laid out that begins in front of some number of open brackets.
A line that begins outside block strings is empty, or it is indented by the width for every
bracket that is open in front of it, less one if it begins with a closing brace or parenthesis,
and goes on with a character that is not blank. No line that ends outside block strings has a
space or a tab at its end. Of two empty lines one below the other, one begins in a block
string. -/
structure LaidOut (indentWidth level : Nat) (text : List Char) : Prop where
  indented : ∀ before behind, text = before ++ behind → BeginsLine before →
    ¬ InsideBlockString text behind → EndsLine behind ∨ ∃ depth solid rest,
      nesting level (tokensBefore text behind) =
          depth + (if solid = '\x7d' ∨ solid = ')' then 1 else 0) ∧
        Text.isBlank solid = false ∧
          behind = List.replicate (indentWidth * depth) ' ' ++ solid :: rest
  untrailed : ∀ before last behind, text = before ++ last :: behind → EndsLine behind →
    ¬ InsideBlockString text behind → last ≠ ' ' ∧ last ≠ '\t'
  parted : ∀ before behind, text = before ++ '\n' :: behind → BeginsLine before →
    EndsLine behind → InsideBlockString text ('\n' :: behind) ∨ InsideBlockString text behind

/-- A line on top of what stands below it: it has line feeds in block strings only, and adds its
tokens in front of those below. -/
structure Tops (written tail : List Char) (tokens : List Token) : Prop where
  broken : ∀ front back, written = front ++ '\n' :: back →
    InsideBlockString (written ++ tail) ('\n' :: (back ++ tail)) ∧
      InsideBlockString (written ++ tail) (back ++ tail)
  lexemes : ∃ lexemes, (scan (written ++ tail)).lexemes = lexemes ++ (scan tail).lexemes ∧
    lexemes.map Lexeme.token = tokens ∧ ∀ lexeme ∈ lexemes, tail.length < lexeme.source.length

/-- A line that stands at its indentation and ends with a character that is not blank. -/
structure Placed (indentWidth level : Nat) (written : List Char) : Prop where
  indented : ∃ depth solid rest, level = depth + (if solid = '\x7d' ∨ solid = ')' then 1 else 0) ∧
    Text.isBlank solid = false ∧ written = List.replicate (indentWidth * depth) ' ' ++ solid :: rest
  ends : ∃ front last, written = front ++ [last] ∧ Text.isBlank last = false

section Tops

variable {written tail rest behind : List Char} {tokens : List Token}

/-- An empty line adds nothing. -/
theorem tops_nil (tail : List Char) : Tops [] tail [] where
  broken := by simp
  lexemes := ⟨[], rfl, rfl, by simp⟩

/-- A woven text behind its indentation adds its tokens. -/
theorem tops_woven {text : List Char} (woven : Woven text tokens) (count : Nat)
    (delimited : Delimited tail) : Tops (List.replicate count ' ' ++ text) tail tokens := by
  have spaced : (List.replicate count ' ').all isSpacing = true := by
    simp [List.all_replicate, isSpacing]
  have passed : scan (List.replicate count ' ' ++ text ++ tail) = scan (text ++ tail) := by
    rw [List.append_assoc, scan_spacing_append spaced]
  constructor
  · intro front back split
    rcases split_append split with ⟨more, indentation, -⟩ | ⟨more, -, text_eq⟩
    · have inside : '\n' ∈ List.replicate count ' ' := by simp [indentation]
      simp [List.mem_replicate] at inside
    · have inner := woven.lineFeed delimited text_eq
      have kept : ∀ lexeme ∈ (scan (text ++ tail)).lexemes,
          lexeme ∈ (scan (List.replicate count ' ' ++ text ++ tail)).lexemes := by
        rw [passed]
        exact fun lexeme inside => inside
      exact ⟨inner.1.mono kept, inner.2.mono kept⟩
  · rw [passed]
    exact woven.lexemes delimited

/-- What is inside a block string below a line is so in the whole text. -/
theorem Tops.inside (tops : Tops written ('\n' :: rest) tokens)
    (inside : InsideBlockString rest behind) :
    InsideBlockString (written ++ '\n' :: rest) behind := by
  obtain ⟨lexemes, found, -, -⟩ := tops.lexemes
  refine inside.mono fun lexeme among => ?_
  rw [found, scan_lineFeed]
  exact List.mem_append_right _ among

/-- In front of a place below a line stand the tokens of the line and those between. -/
theorem Tops.tokensBefore (tops : Tops written ('\n' :: rest) tokens) {before : List Char}
    (split : rest = before ++ behind) : tokensBefore (written ++ '\n' :: rest) behind =
      tokens ++ tokensBefore rest behind := by
  obtain ⟨lexemes, found, shown, longer⟩ := tops.lexemes
  have all : lexemes.filter (fun lexeme => behind.length < lexeme.source.length) = lexemes := by
    rw [List.filter_eq_self]
    intro lexeme inside
    have more := longer lexeme inside
    rw [split] at more
    simp only [List.length_cons, List.length_append] at more
    rw [decide_eq_true_eq]
    omega
  rw [Lexical.tokensBefore, found, scan_lineFeed, List.filter_append, List.map_append, all, shown]
  rfl

/-- A line begins at the beginning of the text, in a block string, or below the first line. -/
theorem Tops.lineStart (tops : Tops written tail tokens) (ends : EndsLine tail)
    {before : List Char} (split : written ++ tail = before ++ behind) (begins : BeginsLine before) :
    before = [] ∨ InsideBlockString (written ++ tail) behind ∨ ∃ rest upper, tail = '\n' :: rest ∧
      rest = upper ++ behind ∧ BeginsLine upper := by
  rcases begins with rfl | ⟨above, rfl⟩
  · exact .inl rfl
  · rw [List.append_assoc, List.singleton_append] at split
    rcases split_append split with ⟨more, written_eq, rfl⟩ | ⟨more, -, tail_eq⟩
    · exact .inr (.inl (tops.broken above more written_eq).2)
    · rcases ends with rfl | ⟨rest, rfl⟩
      · simp at tail_eq
      · refine .inr (.inr ⟨rest, ?_⟩)
        cases more with
        | nil =>
          obtain ⟨-, rfl⟩ := List.cons.inj tail_eq
          exact ⟨[], rfl, rfl, .inl rfl⟩
        | cons first more =>
          obtain ⟨-, rfl⟩ := List.cons.inj tail_eq
          exact ⟨more ++ ['\n'], rfl, by simp, .inr ⟨more, rfl⟩⟩

/-- A line ends in a block string, with the first line, or below it. -/
theorem Tops.lineEnd (tops : Tops written tail tokens) (closed : EndsLine tail)
    {upto : List Char} (split : written ++ tail = upto ++ behind) (ends : EndsLine behind) :
    InsideBlockString (written ++ tail) behind ∨ upto = written ∨
      ∃ rest upper, tail = '\n' :: rest ∧ upto = written ++ '\n' :: upper ∧
        rest = upper ++ behind := by
  rcases ends with rfl | ⟨below, rfl⟩
  · rw [List.append_nil] at split
    rcases closed with rfl | ⟨rest, rfl⟩
    · exact .inr (.inl (by rw [← split, List.append_nil]))
    · exact .inr (.inr ⟨rest, rest, rfl, split.symm, (List.append_nil rest).symm⟩)
  · rcases split_append split with ⟨more, written_eq, rfl⟩ | ⟨more, upto_eq, tail_eq⟩
    · exact .inl (tops.broken upto more written_eq).1
    · cases more with
      | nil => exact .inr (.inl (by rw [upto_eq, List.append_nil]))
      | cons first more =>
        rcases closed with rfl | ⟨rest, rfl⟩
        · simp at tail_eq
        · obtain ⟨rfl, rfl⟩ := List.cons.inj tail_eq
          exact .inr (.inr ⟨_, more, rfl, upto_eq, rfl⟩)

end Tops

section Steps

variable {indentWidth level : Nat} {written tail : List Char} {tokens : List Token}

/-- A placed line has no line feed in front. -/
theorem Placed.head_ne (placed : Placed indentWidth level written) {behind : List Char} :
    written ++ tail ≠ '\n' :: behind := by
  obtain ⟨depth, solid, rest, -, solidFirst, rfl⟩ := placed.indented
  intro split
  cases replicated : List.replicate (indentWidth * depth) ' ' with
  | nil =>
    rw [replicated] at split
    obtain ⟨rfl, -⟩ := List.cons.inj split
    contradiction
  | cons first others =>
    have space : first = ' ' := List.eq_of_mem_replicate (replicated ▸ List.mem_cons_self)
    rw [replicated, space] at split
    obtain ⟨broken, -⟩ := List.cons.inj split
    contradiction

/-- The empty text is laid out. -/
theorem laidOut_nil : LaidOut indentWidth level [] where
  indented before behind split _ _ := by
    obtain ⟨-, rfl⟩ := List.nil_eq_append_iff.1 split
    exact .inl (.inl rfl)
  untrailed before last behind split := by simp at split
  parted before behind split := by simp at split

/-- A line on top of what is laid out below it. Below an empty line stands one that is not
empty. -/
theorem Tops.laidOut (tops : Tops written tail tokens)
    (stood : written = [] ∨ Placed indentWidth level written) (closed : EndsLine tail)
    (below : ∀ rest, tail = '\n' :: rest → LaidOut indentWidth (nesting level tokens) rest)
    (room : ∀ rest, tail = '\n' :: rest → written = [] → ¬ EndsLine rest) :
    LaidOut indentWidth level (written ++ tail) where
  indented before behind split begins apart := by
    rcases tops.lineStart closed split begins with rfl | inside | ⟨rest, upper, rfl, split, begins⟩
    · obtain rfl : written ++ tail = behind := split
      rw [tokensBefore_self]
      rcases stood with rfl | placed
      · exact .inl closed
      · obtain ⟨depth, solid, rest, level_eq, solidFirst, rfl⟩ := placed.indented
        exact .inr ⟨depth, solid, rest ++ tail, level_eq, solidFirst, by simp⟩
    · exact absurd inside apart
    · have apartBelow : ¬ InsideBlockString rest behind := fun inside => apart (tops.inside inside)
      rw [tops.tokensBefore split, nesting_append]
      exact (below rest rfl).indented upper behind split begins apartBelow
  untrailed before last behind split ends apart := by
    have upto : written ++ tail = (before ++ [last]) ++ behind := by simp [split]
    rcases tops.lineEnd closed upto ends with inside | whole | ⟨rest, upper, rfl, more, split⟩
    · exact absurd inside apart
    · rcases stood with rfl | placed
      · simp at whole
      · obtain ⟨front, solid, ending, solidLast⟩ := placed.ends
        obtain ⟨-, rfl⟩ := List.append_singleton_inj.1 (whole.trans ending)
        constructor <;> rintro rfl <;> contradiction
    · -- The last character is the line feed behind the first line, or one of those below it.
      rcases List.eq_nil_or_concat upper with rfl | ⟨others, final, rfl⟩
      · obtain ⟨-, rfl⟩ := List.append_singleton_inj.1 more
        decide
      · have regrouped : before ++ [last] = (written ++ '\n' :: others) ++ [final] := by
          simpa using more
        obtain ⟨-, rfl⟩ := List.append_singleton_inj.1 regrouped
        have apartBelow : ¬ InsideBlockString rest behind :=
          fun inside => apart (tops.inside inside)
        exact (below rest rfl).untrailed others last behind (by simp [split]) ends apartBelow
  parted before behind split begins ends := by
    rcases tops.lineStart closed split begins with rfl | inside | ⟨rest, upper, rfl, split, begins⟩
    · rcases stood with rfl | placed
      · exact absurd ends (room behind split rfl)
      · exact absurd split placed.head_ne
    · exact .inl inside
    · exact ((below rest rfl).parted upper behind split begins ends).imp tops.inside tops.inside

end Steps

section Runs

variable {indentWidth : Nat}

/-- A line of woven text stands at its indentation. -/
theorem placed_woven {text : String} {first : Token} {others : List Token} {level depth : Nat}
    (woven : Woven text.toList (first :: others))
    (placed : level = depth + if first.shuts then 1 else 0) :
    Placed indentWidth level (Line.write indentWidth ⟨depth, text⟩).toList := by
  obtain ⟨solid, rest, begun, solidFirst, tells⟩ := woven.head_shuts
  obtain ⟨front, last, ended, solidLast⟩ := woven.ends
  have written : (Line.write indentWidth ⟨depth, text⟩).toList =
      List.replicate (indentWidth * depth) ' ' ++ text.toList := by
    simp [Line.write]
  rw [written]
  refine ⟨⟨depth, solid, rest, ?_, solidFirst, by rw [begun]⟩,
    ⟨List.replicate (indentWidth * depth) ' ' ++ front, last, by rw [ended, List.append_assoc],
      solidLast⟩⟩
  rw [placed]
  simp only [tells first rfl]

/-- A line on top of others is written in front of their text, behind a line feed if there are
any. -/
theorem exists_toList_join_cons (line : Line) (others : List Line) :
    ∃ tail, (Line.join indentWidth (line :: others)).toList =
      (line.write indentWidth).toList ++ tail ∧ EndsLine tail ∧
        ∀ rest, tail = '\n' :: rest → rest = (Line.join indentWidth others).toList := by
  cases others with
  | nil => exact ⟨[], by simp [Line.join], .inl rfl, by simp⟩
  | cons second others =>
    exact ⟨_, Line.toList_join_cons_cons indentWidth line second others, .inr ⟨_, rfl⟩,
      fun rest tail_eq => (List.cons.inj tail_eq).2.symm⟩

/-- Lines that stand where they belong are laid out, and do not begin with an empty line where
none may stand. -/
theorem laidOut_of_stands {first last : Footing} {lines : List Line}
    (stands : Stands first lines last) (roomy : last.roomy = true) :
    LaidOut indentWidth first.level (Line.join indentWidth lines).toList ∧
      (first.roomy = false → ¬ EndsLine (Line.join indentWidth lines).toList) := by
  -- On the lines from the last one up: what the footing behind a line says holds of the text
  -- below it.
  induction stands with
  | nil footing =>
    refine ⟨laidOut_nil, fun cramped => ?_⟩
    rw [roomy] at cramped
    contradiction
  | @gap level lines last below inductionHypothesis =>
    obtain ⟨laidOut, next⟩ := inductionHypothesis roomy
    obtain ⟨tail, written, closed, rest_eq⟩ := @exists_toList_join_cons indentWidth ⟨0, ""⟩ lines
    have empty : (Line.write indentWidth ⟨0, ""⟩).toList = [] := by simp [Line.write]
    rw [empty] at written
    refine ⟨?_, by simp⟩
    rw [written]
    refine (tops_nil tail).laidOut (.inl rfl) closed ?_ ?_
    · intro rest tail_eq
      rw [rest_eq rest tail_eq]
      exact laidOut
    · intro rest tail_eq _
      rw [rest_eq rest tail_eq]
      exact next rfl
  | @line level depth own text opening others lines last woven placed below inductionHypothesis =>
    obtain ⟨laidOut, -⟩ := inductionHypothesis roomy
    obtain ⟨tail, written, closed, rest_eq⟩ :=
      @exists_toList_join_cons indentWidth ⟨depth, text⟩ lines
    have stood : Placed indentWidth level (Line.write indentWidth ⟨depth, text⟩).toList :=
      placed_woven woven placed
    have some : (Line.write indentWidth ⟨depth, text⟩).toList ≠ [] := by
      obtain ⟨-, front, final, ended, -⟩ := stood
      simp [ended]
    have delimited : Delimited tail := by
      rcases closed with rfl | ⟨rest, rfl⟩
      · exact delimited_nil
      · simp
        decide
    have tops : Tops (Line.write indentWidth ⟨depth, text⟩).toList tail (opening :: others) := by
      have indentation := tops_woven woven (indentWidth * depth) delimited
      simpa [Line.write] using indentation
    rw [written]
    constructor
    · refine tops.laidOut (.inr stood) closed ?_ fun _ _ nothing => absurd nothing some
      intro rest tail_eq
      rw [rest_eq rest tail_eq]
      exact laidOut
    · rintro - (nothing | ⟨behind, split⟩)
      · exact some (List.append_eq_nil_iff.1 nothing).1
      · exact stood.head_ne split

end Runs

end GraphQLCanon.Layout

namespace GraphQLCanon

open GraphQLCanon.Layout

variable {text result : String} {options : Options}

/-- The outline of the canonical form of a query leads from no open brackets to none. -/
theorem lead_of_readExecutable {document : Executable.Document}
    (read : readExecutable text = .ok document) : Row.Lead document.canonical.rows 0 0 := by
  obtain ⟨nonempty, sources⟩ := sources_of_readExecutable read
  apply Row.lead_intercalate_gap
  · simpa [Executable.Document.canonical] using nonempty
  · rw [Executable.Document.canonical, List.map_map, List.forall_mem_map]
    intro definition inside
    obtain ⟨source, taken, fits, legible⟩ := sources definition inside
    exact Executable.Definition.lead_canonical taken fits legible

/-- The outline of the canonical form of a schema leads from no open brackets to none. -/
theorem lead_of_readTypeSystem {document : TypeSystem.Document}
    (read : readTypeSystem text = .ok document) : Row.Lead document.canonical.rows 0 0 := by
  obtain ⟨nonempty, sources⟩ := sources_of_readTypeSystem read
  apply Row.lead_intercalate_gap
  · simpa [TypeSystem.Document.canonical] using nonempty
  · rw [TypeSystem.Document.canonical, List.map_map, List.forall_mem_map]
    intro definition inside
    obtain ⟨source, rfl, legible⟩ := sources definition inside
    exact TypeSystem.Definition.lead_canonical legible

/-- An outline that leads from no open brackets to none is written as a text that is laid
out. -/
theorem laidOut_of_lead {rows : List Row} (lead : Row.Lead rows 0 0) (indentWidth maxWidth : Nat) :
    LaidOut indentWidth 0 (Row.write rows indentWidth maxWidth).toList :=
  (laidOut_of_stands (lead indentWidth maxWidth false) rfl).1

/-- The canonical form of a query or a schema is laid out, whatever the options are: outside
block strings every line is empty or stands at the depth of the brackets that are open in front
of it, no line has a space or a tab at its end, and no two empty lines follow each other. It
neither begins nor ends with a blank. -/
theorem format_laidOut (text result : String) (options : Options)
    (formatted : formatQuery text options = .ok result ∨ formatSchema text options = .ok result) :
    LaidOut options.indentWidth 0 result.toList ∧ Text.Trimmed Text.isBlank result.toList := by
  have stripped (written : String) : Text.Trimmed Text.isBlank (Text.strip written).toList := by
    rw [Text.toList_strip]
    exact Text.trimmed_trimEnds _ _
  rcases formatted with formatted | formatted
  · obtain ⟨document, read, written⟩ := rows_of_formatQuery formatted
    obtain ⟨_, -, -, cut⟩ := formatQuery_eq_ok.1 formatted
    exact ⟨written ▸ laidOut_of_lead (lead_of_readExecutable read) _ _, cut ▸ stripped _⟩
  · obtain ⟨document, read, written⟩ := rows_of_formatSchema formatted
    obtain ⟨_, -, -, cut⟩ := of_formatSchema formatted
    exact ⟨written ▸ laidOut_of_lead (lead_of_readTypeSystem read) _ _, cut ▸ stripped _⟩

set_option maxRecDepth 4000 in
/-- Lines of a block string keep their own indentation and their empty lines, and the lines
around it are laid out. -/
theorem format_laidOut_around_block_string :
    formatQuery "\x7b a(s: \"\"\"\n p\n\n\n   q\n\"\"\") \x7b c \x7d \x7d"
        ⟨2, 12, false, by decide⟩ = .ok ("query \x7b\n  a(\n    s: \"\"\"\np\n\n\n  q\n\"\"\",\n" ++
          "  ) \x7b\n    c\n  \x7d\n\x7d") ∧
      LaidOut 2 0 ("query \x7b\n  a(\n    s: \"\"\"\np\n\n\n  q\n\"\"\",\n" ++
        "  ) \x7b\n    c\n  \x7d\n\x7d").toList ∧
      Text.Trimmed Text.isBlank ("query \x7b\n  a(\n    s: \"\"\"\np\n\n\n  q\n\"\"\",\n" ++
        "  ) \x7b\n    c\n  \x7d\n\x7d").toList := by
  have query : formatQuery "\x7b a(s: \"\"\"\n p\n\n\n   q\n\"\"\") \x7b c \x7d \x7d"
      ⟨2, 12, false, by decide⟩ = .ok ("query \x7b\n  a(\n    s: \"\"\"\np\n\n\n  q\n\"\"\",\n" ++
        "  ) \x7b\n    c\n  \x7d\n\x7d") := by
    cbv
  exact ⟨query, format_laidOut _ _ _ (.inl query)⟩

end GraphQLCanon
