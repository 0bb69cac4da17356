import GraphQLCanon.Proofs.OutputLayout

/-!
# Lines that begin with the word of a schema

A text is taken for a schema when one of its lines begins with the word that opens a schema
block. The canonical form of a schema block has such a line, since its keyword stands at the
beginning of a line without indentation, whatever stands above it. In the canonical form of
a query no line of its own begins with the word: at the beginning of a line stands a keyword,
a brace, or indentation if there is any. Only block strings bring lines with them.
-/

namespace GraphQLCanon.Text

/-- Some line of a text begins with a word: the text does, or what stands behind a line
feed. -/
def OpensLine (word text : List Char) : Prop :=
  word <+: text ∨ ∃ above behind, text = above ++ '\n' :: behind ∧ word <+: behind

variable {word : List Char}

/-- The first line of a text begins with a word when the text does. -/
theorem prefix_head_splitLines (unbroken : '\n' ∉ word) (returnless : '\r' ∉ word)
    (text : List Char) :
    word <+: (splitLines (· == '\n') text).headD [] ↔ word <+: text := by
  induction text generalizing word with
  | nil => rfl
  | cons first rest inductionHypothesis =>
    cases word with
    | nil => simp
    | cons letter letters =>
      rw [List.mem_cons, not_or] at unbroken returnless
      rw [splitLines, List.cons_prefix_cons]
      split
      · rename_i passed
        have other : letter ≠ first := by
          rintro rfl
          exact returnless.1 passed.1.symm
        rw [inductionHypothesis (by simpa using unbroken) (by simpa using returnless)]
        obtain ⟨behind, rfl⟩ : ∃ behind, rest = '\n' :: behind := by
          cases rest with
          | nil => simp at passed
          | cons second behind => exact ⟨behind, by simpa using passed.2⟩
        simp [List.cons_prefix_cons, other, Ne.symm unbroken.1]
      · split
        · rename_i broken
          have other : letter ≠ first := by
            rintro rfl
            simp only [beq_iff_eq] at broken
            exact unbroken.1 broken.symm
          simp [other]
        · rw [← inductionHypothesis unbroken.2 returnless.2]
          cases split : splitLines (· == '\n') rest with
          | nil => exact absurd split (splitLines_ne_nil _ _)
          | cons line others => simp [prependToFirst, List.cons_prefix_cons]

/-- A line below the first one begins with a word when the word stands behind a line feed. -/
theorem prefix_tail_splitLines (unbroken : '\n' ∉ word) (returnless : '\r' ∉ word)
    (text : List Char) :
    (∃ line ∈ (splitLines (· == '\n') text).tail, word <+: line) ↔
      ∃ above behind, text = above ++ '\n' :: behind ∧ word <+: behind := by
  induction text with
  | nil => simp [splitLines]
  | cons first rest inductionHypothesis =>
    -- What stands behind a line feed of the rest does so in the whole, and the whole may begin
    -- with one more line feed.
    have places : (∃ above behind, first :: rest = above ++ '\n' :: behind ∧ word <+: behind) ↔
        (first = '\n' ∧ word <+: rest) ∨
          ∃ above behind, rest = above ++ '\n' :: behind ∧ word <+: behind := by
      constructor
      · rintro ⟨above, behind, split, front⟩
        cases above with
        | nil =>
          obtain ⟨rfl, rfl⟩ := List.cons.inj split
          exact .inl ⟨rfl, front⟩
        | cons other above =>
          obtain ⟨-, rfl⟩ := List.cons.inj split
          exact .inr ⟨above, behind, rfl, front⟩
      · rintro (⟨rfl, front⟩ | ⟨above, behind, rfl, front⟩)
        · exact ⟨[], rest, rfl, front⟩
        · exact ⟨first :: above, behind, rfl, front⟩
    rw [places, ← inductionHypothesis, splitLines]
    split
    · rename_i passed
      have other : first ≠ '\n' := by
        rintro rfl
        exact absurd passed.1 (by decide)
      simp [other]
    · split
      · rename_i broken
        have feed : first = '\n' := by simpa using broken
        rw [← prefix_head_splitLines unbroken returnless rest]
        cases split : splitLines (· == '\n') rest with
        | nil => exact absurd split (splitLines_ne_nil _ _)
        | cons line others => simp [feed]
      · rename_i plain
        have other : first ≠ '\n' := by simpa using plain
        cases split : splitLines (· == '\n') rest with
        | nil => exact absurd split (splitLines_ne_nil _ _)
        | cons line others => simp [prependToFirst, other]

/-- A text is taken for a schema when one of its lines begins with the word. -/
theorem isSchemaChars_iff (text : List Char) :
    isSchemaChars text = true ↔ OpensLine "schema".toList text := by
  have unbroken : '\n' ∉ "schema".toList := by decide
  have returnless : '\r' ∉ "schema".toList := by decide
  rw [OpensLine, ← prefix_head_splitLines unbroken returnless,
    ← prefix_tail_splitLines unbroken returnless, isSchemaChars]
  cases split : splitLines (· == '\n') text with
  | nil => exact absurd split (splitLines_ne_nil _ _)
  | cons line others => simp [List.isPrefixOf_iff_prefix]

/-- Of a text with a line feed in it, some line begins with a word when one does in front of
the line feed or behind it. -/
theorem opensLine_append_feed (unbroken : '\n' ∉ word) (upper lower : List Char) :
    OpensLine word (upper ++ '\n' :: lower) ↔ OpensLine word upper ∨ OpensLine word lower := by
  have fresh : ∀ first, ('\n' :: lower).head? = some first → first ∉ word := by
    rintro first ⟨⟩
    exact unbroken
  constructor
  · rintro (front | ⟨above, behind, split, front⟩)
    · exact .inl (.inl (Lexical.prefix_of_prefix_append front fresh))
    · rcases Lexical.split_append split with ⟨more, rfl, rfl⟩ | ⟨more, -, later⟩
      · exact .inl (.inr ⟨above, more, rfl, Lexical.prefix_of_prefix_append front fresh⟩)
      · cases more with
        | nil =>
          obtain ⟨-, rfl⟩ := List.cons.inj later
          exact .inr (.inl front)
        | cons first more =>
          obtain ⟨-, rfl⟩ := List.cons.inj later
          exact .inr (.inr ⟨more, behind, rfl, front⟩)
  · rintro ((front | ⟨above, behind, rfl, front⟩) | front | ⟨above, behind, rfl, front⟩)
    · exact .inl (front.trans (List.prefix_append _ _))
    · exact .inr ⟨above, behind ++ '\n' :: lower, by simp, front.trans (List.prefix_append _ _)⟩
    · exact .inr ⟨upper, lower, rfl, front⟩
    · exact .inr ⟨upper ++ '\n' :: above, behind, by simp, front⟩

end GraphQLCanon.Text

namespace GraphQLCanon.Layout

open GraphQLCanon.Lexical
open GraphQLCanon.Text (OpensLine opensLine_append_feed)

variable {word : List Char}

section Lines

variable {indentWidth : Nat}

/-- Among lines joined by line feeds, one begins with a word when one of the lines has such a
line. -/
theorem opensLine_join (unbroken : '\n' ∉ word) (some : word ≠ []) (lines : List Line) :
    OpensLine word (Line.join indentWidth lines).toList ↔
      ∃ line ∈ lines, OpensLine word (line.write indentWidth).toList := by
  induction lines with
  | nil => simp [Line.join, OpensLine, some]
  | cons line others inductionHypothesis =>
    cases others with
    | nil => simp [Line.join]
    | cons second others =>
      rw [Line.toList_join_cons_cons, opensLine_append_feed unbroken, inductionHypothesis]
      simp

/-- What stands at the beginning of a line that is indented. -/
theorem not_prefix_write {line : Line} (wide : 1 ≤ indentWidth) (deep : 1 ≤ line.depth)
    (visible : ' ' ∉ word) (some : word ≠ []) : ¬ word <+: (line.write indentWidth).toList := by
  obtain ⟨letter, letters, rfl⟩ := List.exists_cons_of_ne_nil some
  obtain ⟨count, product⟩ : ∃ count, indentWidth * line.depth = count + 1 :=
    Nat.exists_eq_succ_of_ne_zero (Nat.ne_of_gt (Nat.mul_pos wide deep))
  rw [Line.write, String.toList_append, String.toList_ofList, product, List.replicate_succ,
    List.cons_append, List.cons_prefix_cons]
  rintro ⟨rfl, -⟩
  exact visible List.mem_cons_self

end Lines

section Tokens

variable {text : List Char} {tokens : List Token}

/-- The spelling of a token stands in every text that is woven from it and others. -/
theorem infix_of_woven (woven : Woven text tokens) {token : Token} (inside : token ∈ tokens) :
    token.spelling <:+: text := by
  induction woven with
  | token legible =>
    obtain rfl := List.mem_singleton.1 inside
    exact List.infix_rfl
  | @cons first gap rest tokens legible spaced apart behind inductionHypothesis =>
    rcases List.mem_cons.1 inside with rfl | later
    · exact (List.prefix_append _ _).isInfix
    · exact (inductionHypothesis later).trans
        ((List.suffix_append _ _).trans (List.suffix_append _ _)).isInfix
  | comma woven inductionHypothesis =>
    exact (inductionHypothesis inside).trans (List.prefix_append _ _).isInfix

/-- A line that begins in the spelling of a token and with a word without quotes begins in a
block string, and ends there or goes beyond the word. -/
theorem opensLine_of_spelling {token : Token} (legible : token.Legible) (unquoted : '"' ∉ word)
    {above more tail : List Char} (split : token.spelling = above ++ '\n' :: more)
    (front : word <+: more ++ tail) :
    ∃ value, token = .blockString value ∧ OpensLine word (BlockString.encode value.toList) := by
  rcases legible.unbroken with unbroken | ⟨raw, rfl⟩
  · have broken := unbroken '\n' (by simp [split])
    contradiction
  · refine ⟨_, rfl, .inr ⟨above, more, split, ?_⟩⟩
    -- The spelling ends with quotes, and these are not part of the word.
    have quotes (front : List Char) :
        front ++ ['"', '"', '"'] = (front ++ ['"', '"']) ++ ['"'] := by simp
    obtain ⟨others, closed⟩ : ∃ others, BlockString.encode
        (String.ofList (BlockString.value raw)).toList = others ++ ['"'] := ⟨_, quotes _⟩
    rw [Token.spelling, closed] at split
    rcases List.eq_nil_or_concat' more with rfl | ⟨inner, last, rfl⟩
    · obtain ⟨-, impossible⟩ := List.append_singleton_inj.1 split
      contradiction
    · have regrouped : others ++ ['"'] = (above ++ '\n' :: inner) ++ [last] := by
        simpa using split
      obtain ⟨-, rfl⟩ := List.append_singleton_inj.1 regrouped
      rw [List.append_assoc] at front
      refine (prefix_of_prefix_append front ?_).trans (List.prefix_append _ _)
      rintro first ⟨⟩
      exact unquoted

/-- Behind a line feed of a woven text a word begins in a block string. -/
theorem opensLine_of_woven (woven : Woven text tokens) (unquoted : '"' ∉ word)
    (uncommaed : ',' ∉ word) {above behind : List Char} (split : text = above ++ '\n' :: behind)
    (front : word <+: behind) :
    ∃ value, .blockString value ∈ tokens ∧ OpensLine word (BlockString.encode value.toList) := by
  induction woven generalizing above behind with
  | token legible =>
    rw [← List.append_nil behind] at front
    obtain ⟨value, rfl, opens⟩ := opensLine_of_spelling legible unquoted split front
    exact ⟨value, List.mem_cons_self, opens⟩
  | @cons token gap rest tokens legible spaced apart woven inductionHypothesis =>
    rcases split_append split with ⟨more, spelled, rfl⟩ | ⟨more, -, later⟩
    · obtain ⟨value, rfl, opens⟩ := opensLine_of_spelling legible unquoted spelled front
      exact ⟨value, List.mem_cons_self, opens⟩
    · rcases split_append later with ⟨other, gap_eq, -⟩ | ⟨other, -, rest_eq⟩
      · rw [gap_eq] at spaced
        simp [isSpacing] at spaced
      · obtain ⟨value, inside, opens⟩ := inductionHypothesis rest_eq front
        exact ⟨value, List.mem_cons_of_mem _ inside, opens⟩
  | comma woven inductionHypothesis =>
    rcases split_append split with ⟨more, text_eq, rfl⟩ | ⟨more, -, alone⟩
    · refine inductionHypothesis text_eq (prefix_of_prefix_append front ?_)
      rintro first ⟨⟩
      exact uncommaed
    · have inside : '\n' ∈ [','] := by simp [alone]
      contradiction

/-- A line of a block string begins with a word in every text that the block string is woven
into. -/
theorem OpensLine.of_infix {inner : List Char} (opens : OpensLine word inner)
    (unopened : ¬ word <+: inner) (inside : inner <:+: text) : ∃ above behind,
      text = above ++ '\n' :: behind ∧ word <+: behind := by
  obtain ⟨before, after, rfl⟩ := inside
  rcases opens with front | ⟨above, behind, rfl, front⟩
  · exact absurd front unopened
  · exact ⟨before ++ above, behind ++ after, by simp, front.trans (List.prefix_append _ _)⟩

end Tokens

section Outlines

variable {indentWidth : Nat}

/-- A line of woven text adds its tokens in front of those of the lines below it. -/
theorem tokens_join_line {text : String} {tokens : List Token} (woven : Woven text.toList tokens)
    (depth : Nat) (others : List Line) :
    (scan (Line.join indentWidth (⟨depth, text⟩ :: others)).toList).tokens =
      tokens ++ (scan (Line.join indentWidth others).toList).tokens := by
  have own (tail : List Char) (delimited : Delimited tail) :
      (scan ((Line.write indentWidth ⟨depth, text⟩).toList ++ tail)).tokens =
        tokens ++ (scan tail).tokens := by
    obtain ⟨lexemes, found, shown, -⟩ := (tops_woven woven (indentWidth * depth) delimited).lexemes
    rw [Line.write, String.toList_append, String.toList_ofList, Scan.tokens, found,
      List.map_append, shown]
    rfl
  cases others with
  | nil => simpa [Line.join] using own [] delimited_nil
  | cons second others =>
    have broken := own ('\n' :: (Line.join indentWidth (second :: others)).toList)
      (by simp; decide)
    rw [scan_lineFeed] at broken
    rw [← broken, Line.toList_join_cons_cons]

/-- An empty line adds no tokens. -/
theorem tokens_join_gap (others : List Line) :
    (scan (Line.join indentWidth (⟨0, ""⟩ :: others)).toList).tokens =
      (scan (Line.join indentWidth others).toList).tokens := by
  cases others with
  | nil => simp [Line.join, Line.write]
  | cons second others =>
    rw [Line.toList_join_cons_cons]
    simp [Line.write, scan_lineFeed]

/-- A line of woven text begins with a word without quotes, commas and spacing when a line of
one of its block strings does. -/
theorem opensLine_write_iff {text : String} {tokens : List Token} (woven : Woven text.toList tokens)
    (depth : Nat) (some : word ≠ [])
    (plain : ∀ character ∈ word, character ∉ ['\n', '"', ',', ' ']) :
    OpensLine word (Line.write indentWidth ⟨depth, text⟩).toList ↔
      word <+: (Line.write indentWidth ⟨depth, text⟩).toList ∨
        ∃ value, .blockString value ∈ tokens ∧ OpensLine word (BlockString.encode value.toList) := by
  have free {character : Char} (among : character ∈ ['\n', '"', ',', ' ']) : character ∉ word :=
    fun inside => plain character inside among
  have written : (Line.write indentWidth ⟨depth, text⟩).toList =
      List.replicate (indentWidth * depth) ' ' ++ text.toList := by
    simp [Line.write]
  rw [written]
  constructor
  · rintro (front | ⟨above, behind, split, front⟩)
    · exact .inl front
    · rcases split_append split with ⟨more, indentation, -⟩ | ⟨more, -, text_eq⟩
      · have inside : '\n' ∈ List.replicate (indentWidth * depth) ' ' := by simp [indentation]
        simp [List.mem_replicate] at inside
      · exact .inr (opensLine_of_woven woven (free (by simp)) (free (by simp)) text_eq front)
  · rintro (front | ⟨value, inside, opens⟩)
    · exact .inl front
    · have quoted : ¬ word <+: BlockString.encode value.toList := by
        obtain ⟨letter, letters, rfl⟩ := List.exists_cons_of_ne_nil some
        simp only [BlockString.encode, List.cons_append, List.cons_prefix_cons]
        rintro ⟨rfl, -⟩
        exact free (by simp) List.mem_cons_self
      have spelled := (infix_of_woven woven inside).trans
        (List.suffix_append (List.replicate (indentWidth * depth) ' ') _).isInfix
      exact .inr (OpensLine.of_infix opens quoted spelled)

/-- Where lines stand where they belong, a line of the text begins with a word without
quotes, commas and spacing when one of the lines does, or a line of one of the block
strings. -/
theorem opensLine_join_iff {first last : Footing} {lines : List Line}
    (stands : Stands first lines last) (some : word ≠ [])
    (plain : ∀ character ∈ word, character ∉ ['\n', '"', ',', ' ']) :
    OpensLine word (Line.join indentWidth lines).toList ↔
      (∃ line ∈ lines, word <+: (line.write indentWidth).toList) ∨
        ∃ value, .blockString value ∈ (scan (Line.join indentWidth lines).toList).tokens ∧
          OpensLine word (BlockString.encode value.toList) := by
  have unbroken : '\n' ∉ word := fun inside => plain _ inside (by simp)
  induction stands with
  | nil footing =>
    have blank : (Line.join indentWidth []).toList = [] := rfl
    have nothing : scan [] = ⟨[], none⟩ := scan_of_skipped_nil rfl
    rw [opensLine_join unbroken some, blank, nothing]
    simp [Scan.tokens]
  | @gap level lines last below inductionHypothesis =>
    have empty : ¬ OpensLine word (Line.write indentWidth ⟨0, ""⟩).toList := by
      simp [OpensLine, Line.write, some]
    have unopened : ¬ word <+: (Line.write indentWidth ⟨0, ""⟩).toList := fun front =>
      empty (.inl front)
    rw [opensLine_join unbroken some, tokens_join_gap, List.exists_mem_cons_iff,
      List.exists_mem_cons_iff, ← opensLine_join unbroken some, propext inductionHypothesis]
    simp only [empty, unopened, false_or]
  | @line level depth roomy text first others lines last woven placed below inductionHypothesis =>
    rw [opensLine_join unbroken some, tokens_join_line woven, List.exists_mem_cons_iff,
      List.exists_mem_cons_iff, ← opensLine_join unbroken some, propext inductionHypothesis,
      opensLine_write_iff woven depth some plain]
    simp only [List.mem_append, or_and_right, exists_or]
    exact or_or_or_comm

end Outlines

end GraphQLCanon.Layout
