import GraphQLCanon.Proofs.WovenTexts

/-!
# Places in a text

A place in a text is given by what stands behind it. The scan of the text tells which
tokens begin in front of the place, and whether it is inside a block string. A line of
woven text adds its own tokens in front of all places below it, and has line feeds in block
strings only.
-/

namespace GraphQLCanon.Lexical

/-- An item of one list behind another stands in the first list or in the second one. -/
theorem split_append {α : Type} {left right front back : List α} {item : α}
    (split : left ++ right = front ++ item :: back) :
    (∃ more, left = front ++ item :: more ∧ back = more ++ right) ∨
      ∃ more, front = left ++ more ∧ right = more ++ item :: back := by
  rcases List.append_eq_append_iff.1 split with
    ⟨more, front_eq, right_eq⟩ | ⟨more, left_eq, back_eq⟩
  · exact .inr ⟨more, front_eq, right_eq⟩
  · cases more with
    | nil => exact .inr ⟨[], by simpa using left_eq.symm, by simpa using back_eq.symm⟩
    | cons first more =>
      obtain ⟨rfl, rfl⟩ := List.cons.inj back_eq
      exact .inl ⟨more, left_eq, rfl⟩

/-- The tokens of a text that begin in front of a place. -/
def tokensBefore (text behind : List Char) : List Token :=
  ((scan text).lexemes.filter fun lexeme => behind.length < lexeme.source.length).map Lexeme.token

/-- A place in a text is inside a block string when one begins in front of it and ends behind
it. -/
def InsideBlockString (text behind : List Char) : Prop :=
  ∃ value first source remaining, ⟨.blockString value, first :: source⟩ ∈ (scan text).lexemes ∧
    readToken first source = .ok (.blockString value, remaining) ∧
      behind.length < (first :: source).length ∧ remaining.length < behind.length

/-- Every token of a text begins in it. -/
theorem length_source_le {text : List Char} {lexeme : Lexeme}
    (inside : lexeme ∈ (scan text).lexemes) : lexeme.source.length ≤ text.length := by
  fun_induction scan text with
  | case1 source skipped => contradiction
  | case2 source first rest skipped fault read => contradiction
  | case3 source first rest skipped token remaining read others inductionHypothesis =>
    have begun := (skipIgnored_suffix false source).length_le
    rw [skipped] at begun
    rcases List.mem_cons.1 inside with rfl | later
    · exact begun
    · have shorter := length_remaining_lt skipped read
      have more := inductionHypothesis later
      omega

/-- A place that is inside a block string of some text is so in every text with the same
tokens at the same places, and perhaps others. -/
theorem InsideBlockString.mono {text other behind : List Char}
    (inside : InsideBlockString text behind)
    (more : ∀ lexeme ∈ (scan text).lexemes, lexeme ∈ (scan other).lexemes) :
    InsideBlockString other behind := by
  obtain ⟨value, first, source, remaining, among, read, begins, ends⟩ := inside
  exact ⟨value, first, source, remaining, more _ among, read, begins, ends⟩

/-- No token begins in front of the whole text. -/
theorem tokensBefore_self (text : List Char) : tokensBefore text text = [] := by
  rw [tokensBefore, List.map_eq_nil_iff, List.filter_eq_nil_iff]
  intro lexeme inside
  have begun := length_source_le inside
  simpa using begun

/-- Spacing is passed over. -/
theorem scan_spacing_append {gap : List Char} (spaced : gap.all isSpacing = true)
    (rest : List Char) : scan (gap ++ rest) = scan rest := by
  induction gap with
  | nil => rfl
  | cons first others inductionHypothesis =>
    rw [List.all_cons, Bool.and_eq_true] at spaced
    rw [← inductionHypothesis spaced.2]
    apply scan_congr
    have spacing := spaced.1
    simp only [isSpacing, Bool.or_eq_true, beq_iff_eq] at spacing
    rcases spacing with rfl | rfl <;> simp [skipIgnored, isSeparator]

/-- A line feed is passed over. -/
theorem scan_lineFeed (rest : List Char) : scan ('\n' :: rest) = scan rest :=
  scan_congr (by simp [skipIgnored, isSeparator])

/-- A legible token is read in front of a text that does not prolong it. -/
theorem Token.Legible.read_apart {token : Token} (legible : token.Legible) {rest : List Char}
    (apart : (∃ sign, token = .punctuator sign) ∨ Delimited rest) :
    ∃ first tail, token.spelling = first :: tail ∧
      readToken first (tail ++ rest) = .ok (token, rest) := by
  rcases apart with ⟨sign, rfl⟩ | delimited
  · exact readToken_punctuator sign rest
  · exact legible.read delimited

/-- A legible token is scanned in front of a text that does not prolong it, and the scan goes on
behind it. -/
theorem scan_token {token : Token} (legible : token.Legible) {rest : List Char}
    (apart : (∃ sign, token = .punctuator sign) ∨ Delimited rest) :
    scan (token.spelling ++ rest) =
      ⟨⟨token, token.spelling ++ rest⟩ :: (scan rest).lexemes, (scan rest).fault⟩ := by
  obtain ⟨first, tail, spelled, read⟩ := legible.read_apart apart
  rw [spelled, List.cons_append]
  exact scan_of_ok (skipIgnored_of_readToken read _) read

/-- A legible token in front of a text that does not prolong it is the first one there. -/
theorem scan_token_append {token : Token} (legible : token.Legible) {rest : List Char}
    (apart : (∃ sign, token = .punctuator sign) ∨ Delimited rest) :
    ∃ first tail, token.spelling = first :: tail ∧
      readToken first (tail ++ rest) = .ok (token, rest) ∧
        (scan (token.spelling ++ rest)).lexemes =
          ⟨token, first :: (tail ++ rest)⟩ :: (scan rest).lexemes := by
  obtain ⟨first, tail, spelled, read⟩ := legible.read_apart apart
  refine ⟨first, tail, spelled, read, ?_⟩
  rw [scan_token legible apart, spelled, List.cons_append]

/-- A line feed in the spelling of a token is inside a block string: quotes are in front of it
and behind it. -/
theorem Token.Legible.lineFeed {token : Token} (legible : token.Legible) {rest : List Char}
    (apart : (∃ sign, token = .punctuator sign) ∨ Delimited rest) {front back : List Char}
    (split : token.spelling = front ++ '\n' :: back) :
    InsideBlockString (token.spelling ++ rest) ('\n' :: (back ++ rest)) ∧
      InsideBlockString (token.spelling ++ rest) (back ++ rest) := by
  obtain ⟨first, tail, spelled, read, found⟩ := scan_token_append legible apart
  obtain ⟨⟨opening, others, opened, solidFirst⟩, before, closing, closed, solidLast⟩ :=
    legible.solid
  have someFront : 0 < front.length := by
    rw [List.length_pos_iff]
    rintro rfl
    have same : opening :: others = '\n' :: back := by rw [← opened, split, List.nil_append]
    obtain ⟨rfl, -⟩ := List.cons.inj same
    contradiction
  have someBack : 0 < back.length := by
    rw [List.length_pos_iff]
    rintro rfl
    have same : before ++ [closing] = front ++ ['\n'] := by rw [← closed, split]
    obtain ⟨-, rfl⟩ := List.append_singleton_inj.1 same
    contradiction
  have length : (first :: (tail ++ rest)).length =
      front.length + (back.length + 1) + rest.length := by
    rw [← List.cons_append, ← spelled, split, List.length_append, List.length_append,
      List.length_cons]
  rcases legible.unbroken with unbroken | ⟨raw, rfl⟩
  · have broken := unbroken '\n' (by simp [split])
    contradiction
  · have among := found ▸ List.mem_cons_self
    constructor
    · refine ⟨_, _, _, _, among, read, ?_, ?_⟩ <;> simp only [length, List.length_cons,
        List.length_append] <;> omega
    · refine ⟨_, _, _, _, among, read, ?_, ?_⟩ <;> simp only [length, List.length_append] <;> omega

namespace Woven

variable {text rest : List Char} {tokens : List Token}

/-- A woven text adds its tokens in front of those behind it. -/
theorem lexemes (woven : Woven text tokens) (delimited : Delimited rest) :
    ∃ lexemes, (scan (text ++ rest)).lexemes = lexemes ++ (scan rest).lexemes ∧
      lexemes.map Lexeme.token = tokens ∧
        ∀ lexeme ∈ lexemes, rest.length < lexeme.source.length := by
  induction woven generalizing rest with
  | @token token legible =>
    obtain ⟨first, tail, -, -, found⟩ := scan_token_append legible (.inr delimited)
    refine ⟨[⟨token, first :: (tail ++ rest)⟩], found, rfl, ?_⟩
    rw [List.forall_mem_singleton, List.length_cons, List.length_append]
    omega
  | @cons token gap below tokens legible spaced apart behind inductionHypothesis =>
    obtain ⟨lexemes, more, shown, longer⟩ := inductionHypothesis delimited
    have nonempty : gap ++ below ≠ [] := by simp [behind.text_ne_nil]
    obtain ⟨first, tail, -, -, found⟩ := scan_token_append legible
      (apart.imp_right fun set => set.append_of_ne_nil nonempty rest)
    refine ⟨⟨token, first :: (tail ++ (gap ++ below ++ rest))⟩ :: lexemes, ?_, by simp [shown], ?_⟩
    · rw [List.append_assoc, found, List.append_assoc, scan_spacing_append spaced, more]
      rfl
    · refine List.forall_mem_cons.2 ⟨?_, longer⟩
      rw [List.length_cons, List.length_append, List.length_append]
      omega
  | @comma text tokens woven inductionHypothesis =>
    have comma : Delimited (',' :: rest) := by simp; decide
    obtain ⟨lexemes, found, shown, longer⟩ := inductionHypothesis comma
    have passed : scan (',' :: rest) = scan rest := @scan_spacing_append [','] rfl rest
    rw [passed] at found
    refine ⟨lexemes, by simpa using found, shown, fun lexeme inside => ?_⟩
    have one := longer lexeme inside
    rw [List.length_cons] at one
    omega

/-- A line feed of a woven text stands in a block string. -/
theorem lineFeed (woven : Woven text tokens) (delimited : Delimited rest) {front back : List Char}
    (split : text = front ++ '\n' :: back) :
    InsideBlockString (text ++ rest) ('\n' :: (back ++ rest)) ∧
      InsideBlockString (text ++ rest) (back ++ rest) := by
  induction woven generalizing rest front back with
  | token legible => exact legible.lineFeed (.inr delimited) split
  | @cons token gap below tokens legible spaced apart behind inductionHypothesis =>
    have nonempty : gap ++ below ≠ [] := by simp [behind.text_ne_nil]
    have set : (∃ sign, token = .punctuator sign) ∨ Delimited (gap ++ below ++ rest) :=
      apart.imp_right fun set => set.append_of_ne_nil nonempty rest
    obtain ⟨first, tail, -, -, found⟩ := scan_token_append legible set
    rcases split_append split with ⟨more, spelled, rfl⟩ | ⟨more, -, later⟩
    · have own := legible.lineFeed set spelled
      simpa only [List.append_assoc] using own
    · -- It does not stand in the gap, so it stands behind it.
      rcases split_append later with ⟨other, gap_eq, -⟩ | ⟨other, -, below_eq⟩
      · rw [gap_eq] at spaced
        simp [isSpacing] at spaced
      · have inner := inductionHypothesis delimited below_eq
        have kept : ∀ lexeme ∈ (scan (below ++ rest)).lexemes,
            lexeme ∈ (scan (token.spelling ++ (gap ++ below) ++ rest)).lexemes := by
          intro lexeme inside
          rw [List.append_assoc, found, List.append_assoc, scan_spacing_append spaced]
          exact List.mem_cons_of_mem _ inside
        exact ⟨inner.1.mono kept, inner.2.mono kept⟩
  | @comma text tokens woven inductionHypothesis =>
    have comma : Delimited (',' :: rest) := by simp; decide
    rcases split_append split with ⟨more, text_eq, rfl⟩ | ⟨more, -, alone⟩
    · have inner := inductionHypothesis comma text_eq
      simpa using inner
    · have inside : '\n' ∈ [','] := by simp [alone]
      contradiction

end Woven

end GraphQLCanon.Lexical
