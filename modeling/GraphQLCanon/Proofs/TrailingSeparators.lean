import GraphQLCanon.Proofs.ScanAppend

/-!
# Separators behind a text

Separators behind a text change neither its tokens nor where the scan of it stops. A token in
front of them is read as before. A fault is found at its own place, or, where the text
ended too early, at the end of the text or among the separators: they hold no quote, no
backslash and no digit, so they end nothing that was left open. Every reader has one law of this
form, and the law of a reader is put together from those of its parts.
-/

namespace GraphQLCanon.Lexical

/-- The fault that is found in the stead of another one where a text stands behind: at the same
place, or, if the other one lay at the end, somewhere in the text behind. -/
structure Fault.Reaches (trail : List Char) (fault further : Fault) : Prop where
  suffix : further.source <:+ fault.source ++ trail
  same : fault.source ≠ [] → further.source = fault.source ++ trail

/-- A fault at the same place. -/
theorem Fault.reaches_of_eq {trail : List Char} {fault further : Fault}
    (same : further.source = fault.source ++ trail) : fault.Reaches trail further :=
  ⟨same ▸ List.suffix_refl _, fun _ => same⟩

/-- What a reader makes of a source, and what it makes of it in front of a text: the same value,
or a fault in the stead of the other one. What is left, and what a fault names, is an end of the
source. -/
inductive Carries {α : Type} (source trail : List Char) :
    Except Fault (α × List Char) → Except Fault (α × List Char) → Prop
  | ok (value : α) {remaining : List Char} (suffix : remaining <:+ source) :
    Carries source trail (.ok (value, remaining)) (.ok (value, remaining ++ trail))
  | error {fault further : Fault} (suffix : fault.source <:+ source)
    (reaches : fault.Reaches trail further) : Carries source trail (.error fault) (.error further)

section Carries

variable {α β : Type} {source whole trail : List Char}
  {one two : Except Fault (α × List Char)}

/-- What is carried from an end of a source is carried from the source. -/
theorem Carries.mono (carries : Carries source trail one two) (suffix : source <:+ whole) :
    Carries whole trail one two := by
  cases carries with
  | ok value inner => exact .ok value (inner.trans suffix)
  | error inner reaches => exact .error (inner.trans suffix) reaches

/-- A change of the value. -/
theorem Carries.map (carries : Carries source trail one two) (change : α → β) :
    Carries source trail (one.map fun parts => (change parts.1, parts.2))
      (two.map fun parts => (change parts.1, parts.2)) := by
  cases carries with
  | ok value suffix => exact .ok (change value) suffix
  | error suffix reaches => exact .error suffix reaches

/-- One reader behind another. -/
theorem Carries.bind (carries : Carries source trail one two)
    {next : α × List Char → Except Fault (β × List Char)}
    (further : ∀ value remaining, one = .ok (value, remaining) →
      Carries remaining trail (next (value, remaining)) (next (value, remaining ++ trail))) :
    Carries source trail (one >>= next) (two >>= next) := by
  cases carries with
  | ok value suffix => exact (further value _ rfl).mono suffix
  | error suffix reaches => exact .error suffix reaches

/-- What a fault is carried to. -/
theorem Carries.of_error {fault : Fault} (carries : Carries source trail (.error fault) two) :
    ∃ further, two = .error further ∧ fault.source <:+ source ∧ fault.Reaches trail further := by
  cases carries with
  | error suffix reaches => exact ⟨_, rfl, suffix, reaches⟩

/-- A fault that names the whole source. -/
theorem carries_fault (cause other : FaultCause) :
    Carries (α := α) source trail (.error ⟨cause, source⟩) (.error ⟨other, source ++ trail⟩) :=
  .error (List.suffix_refl _) (Fault.reaches_of_eq rfl)

end Carries

section Separators

variable {trail : List Char}

/-- Separators are delimited, and belong to nothing that a token is made of. -/
theorem separator_facts (separated : trail.all isSeparator = true) {character : Char}
    (inside : character ∈ trail) : delimits character = true ∧ character ≠ '\\' ∧
      character ∉ ['{', '}', '+', '-', '/'] ∧ hexDigitValue? character = none := by
  have separator := List.all_eq_true.1 separated character inside
  simp only [isSeparator, Bool.or_eq_true, beq_iff_eq] at separator
  rcases separator with ((((rfl | rfl) | rfl) | rfl) | rfl) | rfl <;> decide

/-- Separators prolong no token. -/
theorem delimited_separators (separated : trail.all isSeparator = true) : Delimited trail := by
  intro character inFront
  exact (separator_facts separated (List.mem_of_head? inFront)).1

/-- Characters of a class at the front are the same in front of a text that leaves it. -/
theorem takeWhile_append_leaves {class? : Char → Bool} (source : List Char)
    (leaves : Leaves class? trail) : (source ++ trail).takeWhile class? = source.takeWhile class? ∧
      (source ++ trail).dropWhile class? = source.dropWhile class? ++ trail := by
  induction source with
  | nil =>
    cases trail with
    | nil => simp
    | cons first others =>
      have apart : class? first = false := by simpa using leaves
      simp [apart]
  | cons first others inductionHypothesis =>
    by_cases inside : class? first = true
    · simp [inside, inductionHypothesis]
    · simp [inside]

end Separators

section Numbers

variable {trail : List Char} (separated : trail.all isSeparator = true)
include separated

/-- Digits in front of separators. -/
theorem carries_readDigits (source : List Char) :
    Carries source trail (readDigits source) (readDigits (source ++ trail)) := by
  have leaves := (delimited_separators separated).leaves_number.number_parts.2.1
  obtain ⟨taken, left⟩ := takeWhile_append_leaves source leaves
  unfold readDigits
  rw [taken, left]
  split
  · exact carries_fault _ _
  · exact .ok _ (List.dropWhile_suffix _)

/-- The integer part of a number in front of separators. -/
theorem carries_readIntegerPart (source : List Char) :
    Carries source trail (readIntegerPart source) (readIntegerPart (source ++ trail)) := by
  by_cases zero : source.head? = some '0'
  · obtain ⟨rest, rfl⟩ := List.head?_eq_some_iff.1 zero
    have leaves := (delimited_separators separated).leaves_number.number_parts.2.1
    cases rest with
    | nil =>
      cases trail with
      | nil => exact .ok _ (List.nil_suffix)
      | cons next others =>
        have plain : next.isDigit = false := by simpa using leaves
        simpa [readIntegerPart, plain] using Carries.ok ['0'] List.nil_suffix
    | cons next others =>
      by_cases digit : next.isDigit = true
      · have fault : Carries (α := List Char) (next :: others) trail
            (.error ⟨.digitAfterZero next, next :: others⟩)
              (.error ⟨.digitAfterZero next, next :: others ++ trail⟩) :=
          carries_fault _ _
        simpa [readIntegerPart, digit] using fault.mono (List.suffix_cons '0' _)
      · simpa [readIntegerPart, digit] using Carries.ok ['0'] (List.suffix_cons '0' (next :: others))
  · have apart : (source ++ trail).head? ≠ some '0' := by
      cases source with
      | nil =>
        intro inFront
        exact absurd (delimited_separators separated '0' inFront) (by decide)
      | cons first others => simpa using zero
    rw [readIntegerPart_of_head_ne zero, readIntegerPart_of_head_ne apart]
    exact carries_readDigits separated source

/-- The fraction of a number in front of separators. -/
theorem carries_readFraction (source : List Char) :
    Carries source trail (readFraction source) (readFraction (source ++ trail)) := by
  cases source with
  | nil =>
    have nothing : readFraction trail = .ok ([], trail) := by
      unfold readFraction
      split
      · exact absurd (delimited_separators separated '.' rfl) (by decide)
      · rfl
    rw [List.nil_append, nothing]
    exact .ok [] (List.suffix_refl [])
  | cons first rest =>
    by_cases point : first = '.'
    · subst point
      refine ((carries_readDigits separated rest).bind ?_).mono (List.suffix_cons '.' rest)
      exact fun digits remaining _ => .ok ('.' :: digits) (List.suffix_refl _)
    · simpa [readFraction, point] using Carries.ok [] (List.suffix_refl (first :: rest))

/-- The exponent of a number in front of separators. -/
theorem carries_readExponent (source : List Char) :
    Carries source trail (readExponent source) (readExponent (source ++ trail)) := by
  cases source with
  | nil =>
    have nothing : readExponent trail = .ok ([], trail) := by
      cases trail with
      | nil => rfl
      | cons first others =>
        have delimiter := (separator_facts separated List.mem_cons_self).1
        have unmarked : ¬(first = 'e' ∨ first = 'E') := by
          rintro (rfl | rfl) <;> exact absurd delimiter (by decide)
        simp [readExponent, unmarked]
    rw [List.nil_append, nothing]
    exact .ok [] (List.suffix_refl [])
  | cons mark rest =>
    by_cases marked : mark = 'e' ∨ mark = 'E'
    · have signs : splitExponentSign (rest ++ trail) =
          ((splitExponentSign rest).1, (splitExponentSign rest).2 ++ trail) := by
        cases rest with
        | nil =>
          cases trail with
          | nil => rfl
          | cons first others =>
            obtain ⟨-, -, noSign, -⟩ := separator_facts separated List.mem_cons_self
            have apart : first ≠ '+' ∧ first ≠ '-' := by
              constructor <;> rintro rfl <;> exact noSign (by decide)
            simp [splitExponentSign, apart]
        | cons first others =>
          by_cases plus : first = '+'
          · subst plus
            rfl
          · by_cases minus : first = '-'
            · subst minus
              rfl
            · simp [splitExponentSign, plus, minus]
      have unsigned : (splitExponentSign rest).2 <:+ rest :=
        ⟨(splitExponentSign rest).1, splitExponentSign_append rest⟩
      simp only [List.cons_append, readExponent, if_pos marked, signs]
      refine ((carries_readDigits separated _).bind ?_).mono
        (unsigned.trans (List.suffix_cons mark rest))
      exact fun digits remaining _ => .ok _ (List.suffix_refl _)
    · simpa [readExponent, marked] using Carries.ok [] (List.suffix_refl (mark :: rest))

/-- A number in front of separators. -/
theorem carries_readNumber (source : List Char) :
    Carries source trail (readNumber source) (readNumber (source ++ trail)) := by
  have signs : splitMinus (source ++ trail) = ((splitMinus source).1, (splitMinus source).2 ++ trail) := by
    cases source with
    | nil =>
      cases trail with
      | nil => rfl
      | cons first others =>
        obtain ⟨-, -, noSign, -⟩ := separator_facts separated List.mem_cons_self
        have apart : first ≠ '-' := by
          rintro rfl
          exact noSign (by decide)
        simp [splitMinus, apart]
    | cons first others =>
      by_cases minus : first = '-'
      · subst minus
        rfl
      · simp [splitMinus, minus]
  have inner : (splitMinus source).2 <:+ source := ⟨(splitMinus source).1, splitMinus_append source⟩
  unfold readNumber
  rw [signs]
  refine ((carries_readIntegerPart separated _).bind fun whole afterWhole _ => ?_).mono inner
  refine (carries_readFraction separated _).bind fun fraction afterFraction _ => ?_
  refine (carries_readExponent separated _).bind fun exponent remaining _ => ?_
  dsimp only
  -- What follows the number directly is the same, and separators may follow it.
  cases remaining with
  | nil =>
    have ends : badFollower? trail = none :=
      badFollower?_of_leaves (delimited_separators separated).leaves_number
    have nothing : badFollower? [] = none := rfl
    rw [List.nil_append, ends, nothing]
    exact .ok _ (List.suffix_refl [])
  | cons next others =>
    have same : badFollower? (next :: others ++ trail) = badFollower? (next :: others) := rfl
    rw [same]
    cases badFollower? (next :: others) with
    | none => exact .ok _ (List.suffix_refl _)
    | some next => exact carries_fault _ _

end Numbers

section Strings

/-- A character that is no hexadecimal digit spoils a number of them. -/
theorem hexValue?_eq_none {digits : List Char} {character : Char} (inside : character ∈ digits)
    (noDigit : hexDigitValue? character = none) : hexValue? digits = none := by
  have spoiled (others : List Char) : others.foldl (fun value? digit => do
      return (← value?) * 16 + (← hexDigitValue? digit)) none = none := by
    induction others with
    | nil => rfl
    | cons first others inductionHypothesis => exact inductionHypothesis
  obtain ⟨before, behind, rfl⟩ := List.append_of_mem inside
  rw [hexValue?, List.foldl_append, List.foldl_cons, noDigit]
  simpa using spoiled behind

variable {trail : List Char} (separated : trail.all isSeparator = true)
include separated

/-- A word of quotes and backslashes stands in front of separators when it stood there without
them. -/
theorem prefix_separators {word source : List Char}
    (signs : ∀ character ∈ word, character = '"' ∨ character = '\\') :
    word <+: source ++ trail ↔ word <+: source := by
  constructor
  · intro front
    refine prefix_of_prefix_append front fun first inFront inside => ?_
    have facts := separator_facts separated (List.mem_of_head? inFront)
    rcases signs first inside with rfl | rfl
    · exact absurd facts.1 (by decide)
    · exact facts.2.1 rfl
  · exact fun front => front.trans (List.prefix_append _ _)

/-- Digits are not completed by separators. -/
theorem codeUnit?_separators (source : List Char) :
    QuotedString.codeUnit? (source ++ trail) = QuotedString.codeUnit? source := by
  unfold QuotedString.codeUnit?
  by_cases long : 4 ≤ source.length
  · rw [List.take_append_of_le_length long]
  · have short : (source.take 4).length ≠ 4 := by
      rw [List.length_take]
      omega
    dsimp only
    rw [if_neg short]
    split
    · rename_i four
      obtain ⟨first, others, some⟩ : ∃ first others, trail.take (4 - source.length) =
          first :: others := by
        rw [List.take_append, List.length_append, List.length_take] at four
        exact List.exists_cons_of_length_pos (by omega)
      have among : first ∈ trail := List.mem_of_mem_take (some ▸ List.mem_cons_self)
      refine hexValue?_eq_none ?_ (separator_facts separated among).2.2.2
      rw [List.take_append, some]
      simp
    · rfl

/-- An escape in braces is not completed by separators. -/
theorem bracedEscape?_separators (source : List Char) :
    QuotedString.bracedEscape? (source ++ trail) = QuotedString.bracedEscape? source := by
  have leaves : Leaves (fun character => (hexDigitValue? character).isSome)
      (trail.take (9 - source.length)) := by
    intro character inFront
    have among := List.mem_of_mem_take (List.mem_of_head? inFront)
    simp [(separator_facts separated among).2.2.2]
  have digits : QuotedString.bracedDigits (source ++ trail) = QuotedString.bracedDigits source := by
    unfold QuotedString.bracedDigits
    rw [List.take_append]
    exact (takeWhile_append_leaves _ leaves).1
  unfold QuotedString.bracedEscape?
  dsimp only
  rw [digits, List.take_append]
  by_cases shut : (QuotedString.bracedDigits source).length < (source.take 9).length
  · have same : ((source.take 9 ++ trail.take (9 - source.length)).drop
        (QuotedString.bracedDigits source).length).head? =
          ((source.take 9).drop (QuotedString.bracedDigits source).length).head? := by
      have some := List.drop_eq_getElem_cons shut
      rw [List.drop_append_of_le_length (Nat.le_of_lt shut), some]
      rfl
    rw [same]
  · have nothing : (source.take 9).drop (QuotedString.bracedDigits source).length = [] :=
      List.drop_eq_nil_of_le (Nat.le_of_not_lt shut)
    rw [List.drop_append, nothing, List.nil_append]
    split
    · rename_i closed
      have among := List.mem_of_mem_take (List.mem_of_mem_drop (List.mem_of_head? closed))
      exact absurd (by decide) (separator_facts separated among).2.2.1
    · rfl

/-- An escape by code units is not completed by separators. -/
theorem fixedEscape?_separators (source : List Char) :
    QuotedString.fixedEscape? (source ++ trail) = QuotedString.fixedEscape? source := by
  unfold QuotedString.fixedEscape?
  rw [codeUnit?_separators separated]
  cases leading : QuotedString.codeUnit? source with
  | none => rfl
  | some unit =>
    have long := (QuotedString.codeUnit?_before [] leading).1
    rw [List.drop_append_of_le_length long]
    cases plain : QuotedString.characterOf? unit with
    | some character => simp [plain]
    | none =>
      -- The backslash and the letter of a second code unit are not among separators.
      have opening : ['\\', 'u'] <+: source.drop 4 ++ trail ↔ ['\\', 'u'] <+: source.drop 4 := by
        refine ⟨fun front => prefix_of_prefix_append front fun first inFront inside => ?_,
          fun front => front.trans (List.prefix_append _ _)⟩
        have facts := separator_facts separated (List.mem_of_head? inFront)
        simp only [List.mem_cons, List.not_mem_nil, or_false] at inside
        rcases inside with rfl | rfl
        · exact facts.2.1 rfl
        · exact absurd facts.1 (by decide)
      simp only [Option.bind_eq_bind, Option.bind_some, plain]
      by_cases opened : ['\\', 'u'] <+: source.drop 4
      · obtain ⟨second, drop_eq⟩ := opened
        simp [← drop_eq, codeUnit?_separators separated]
      · split
        · rename_i second shape
          exact absurd (opening.1 (by simp [shape])) opened
        · split
          · rename_i second shape
            exact absurd (by simp [shape]) opened
          · rfl

/-- An escape that is none is none in front of separators. -/
theorem readEscape_separators {source : List Char} {cause : FaultCause}
    (refused : QuotedString.readEscape source = .error cause) :
    ∃ other, QuotedString.readEscape (source ++ trail) = .error other := by
  unfold QuotedString.readEscape at refused
  split at refused
  · cases trail with
    | nil => exact ⟨_, rfl⟩
    | cons letter others =>
      obtain ⟨delimiter, noEscape, noSign, -⟩ := separator_facts separated List.mem_cons_self
      have noUnit : letter ≠ 'u' := by
        rintro rfl
        exact absurd delimiter (by decide)
      have unknown : QuotedString.shortEscape? letter = none := by
        unfold QuotedString.shortEscape?
        split <;> first | rfl | contradiction
      refine ⟨.unknownEscape (String.ofList ['\\', letter]), ?_⟩
      simp [QuotedString.readEscape, noUnit, unknown]
  · rename_i inner
    cases denoted : QuotedString.bracedEscape? inner with
    | some parts => simp [denoted] at refused
    | none =>
      have again := (bracedEscape?_separators separated inner).trans denoted
      simp only [List.cons_append, QuotedString.readEscape, again]
      exact ⟨_, rfl⟩
  · rename_i inner unbraced
    cases denoted : QuotedString.fixedEscape? inner with
    | some parts => simp [denoted] at refused
    | none =>
      have again := (fixedEscape?_separators separated inner).trans denoted
      have noBrace : ∀ rest, inner ++ trail ≠ '{' :: rest := by
        rintro rest shape
        cases inner with
        | nil =>
          have among : '{' ∈ trail := by
            rw [List.nil_append] at shape
            simp [shape]
          exact (separator_facts separated among).2.2.1 (by decide)
        | cons first others =>
          obtain ⟨rfl, -⟩ := List.cons.inj shape
          exact unbraced others rfl
      rw [List.cons_append]
      unfold QuotedString.readEscape
      split
      · contradiction
      · rename_i rest shape
        exact absurd (List.cons.inj shape).2 (noBrace rest)
      · rename_i rest _ shape
        obtain ⟨-, rfl⟩ := List.cons.inj shape
        rw [again]
        exact ⟨_, rfl⟩
      · rename_i letter rest _ other shape
        exact absurd (List.cons.inj shape).1.symm other
  · rename_i letter rest _ plain
    have noUnit : letter ≠ 'u' := by
      rintro rfl
      exact plain rfl
    exact ⟨cause, by simpa [QuotedString.readEscape, noUnit] using refused⟩

/-- Separators do not close a quoted string. -/
theorem readAfter_separators (taken : Nat) :
    ∃ fault, QuotedString.readAfter taken trail = .error fault ∧ fault.source <:+ trail := by
  induction trail generalizing taken with
  | nil => exact ⟨⟨.unterminatedString, []⟩, by cases taken <;> rfl, List.suffix_refl []⟩
  | cons first others inductionHypothesis =>
    have further : others.all isSeparator = true := by
      rw [List.all_cons, Bool.and_eq_true] at separated
      exact separated.2
    cases taken with
    | succ taken =>
      obtain ⟨fault, refused, suffix⟩ := inductionHypothesis further taken
      exact ⟨fault, refused, suffix.trans (List.suffix_cons first others)⟩
    | zero =>
      obtain ⟨delimiter, noEscape, -, -⟩ := separator_facts separated List.mem_cons_self
      have noQuote : first ≠ '"' := by
        rintro rfl
        exact absurd delimiter (by decide)
      obtain ⟨fault, refused, suffix⟩ := inductionHypothesis further 0
      unfold QuotedString.readAfter
      rw [if_neg noQuote, if_neg noEscape]
      split
      · exact ⟨_, rfl, List.suffix_refl _⟩
      · rw [refused]
        exact ⟨fault, rfl, suffix.trans (List.suffix_cons first others)⟩

/-- A quoted string in front of separators. -/
theorem carries_readAfter (taken : Nat) (source : List Char) :
    Carries source trail (QuotedString.readAfter taken source)
      (QuotedString.readAfter taken (source ++ trail)) := by
  induction source generalizing taken with
  | nil =>
    have ended : QuotedString.readAfter taken [] = .error ⟨.unterminatedString, []⟩ := by
      cases taken <;> rfl
    obtain ⟨fault, refused, suffix⟩ := readAfter_separators separated taken
    rw [ended, List.nil_append, refused]
    exact .error (List.suffix_refl []) ⟨suffix, fun some => absurd rfl some⟩
  | cons character rest inductionHypothesis =>
    have further (taken : Nat) := (inductionHypothesis taken).mono (List.suffix_cons character rest)
    cases taken with
    | succ taken => exact further taken
    | zero =>
      rw [List.cons_append]
      unfold QuotedString.readAfter
      by_cases quote : character = '"'
      · rw [if_pos quote, if_pos quote]
        exact .ok [] (List.suffix_cons character rest)
      rw [if_neg quote, if_neg quote]
      by_cases broken : Text.isLineBreak character = true
      · rw [if_pos broken, if_pos broken]
        exact carries_fault _ _
      rw [if_neg broken, if_neg broken]
      by_cases escaped : character = '\\'
      · rw [if_pos escaped, if_pos escaped]
        cases denoted : QuotedString.readEscape rest with
        | error cause =>
          obtain ⟨other, again⟩ := readEscape_separators separated denoted
          rw [again]
          exact carries_fault _ _
        | ok escape =>
          rw [QuotedString.readEscape_before trail denoted]
          exact (further escape.2).map (escape.1 :: ·)
      · rw [if_neg escaped, if_neg escaped]
        exact (further 0).map (character :: ·)

/-- Separators do not close a block string. -/
theorem readRaw_separators :
    BlockString.readRaw trail = .error ⟨.unterminatedString, []⟩ := by
  induction trail with
  | nil => rfl
  | cons first others inductionHypothesis =>
    have further : others.all isSeparator = true := by
      rw [List.all_cons, Bool.and_eq_true] at separated
      exact separated.2
    obtain ⟨delimiter, noEscape, -, -⟩ := separator_facts separated List.mem_cons_self
    have noQuote : first ≠ '"' := by
      rintro rfl
      exact absurd delimiter (by decide)
    simp [BlockString.readRaw, noQuote, noEscape, inductionHypothesis further, Except.map]

/-- A block string in front of separators. -/
theorem carries_readRaw (source : List Char) :
    Carries source trail (BlockString.readRaw source) (BlockString.readRaw (source ++ trail)) := by
  fun_induction BlockString.readRaw source with
  | case1 =>
    rw [List.nil_append, readRaw_separators separated]
    exact .error (List.suffix_refl []) ⟨List.nil_suffix, fun some => absurd rfl some⟩
  | case2 rest => exact .ok [] ⟨['"', '"', '"'], rfl⟩
  | case3 rest inductionHypothesis =>
    exact (inductionHypothesis.map (['"', '"', '"'] ++ ·)).mono ⟨['\\', '"', '"', '"'], rfl⟩
  | case4 character rest notClosed notEscaped inductionHypothesis =>
    have unclosed : ¬ ['"', '"', '"'] <+: character :: rest ++ trail := by
      rw [prefix_separators separated (by simp)]
      rintro ⟨others, shape⟩
      simp only [List.cons_append, List.nil_append, List.cons.injEq] at shape
      exact notClosed others shape.1.symm shape.2.symm
    have unescaped : ¬ ['\\', '"', '"', '"'] <+: character :: rest ++ trail := by
      rw [prefix_separators separated (by simp)]
      rintro ⟨others, shape⟩
      simp only [List.cons_append, List.nil_append, List.cons.injEq] at shape
      exact notEscaped others shape.1.symm shape.2.symm
    have further := (inductionHypothesis.map (character :: ·)).mono (List.suffix_cons character rest)
    rw [List.cons_append, BlockString.readRaw]
    · exact further
    · rintro others rfl shape
      exact unclosed (by simp [shape])
    · rintro others rfl shape
      exact unescaped (by simp [shape])

/-- A string of either form in front of separators. -/
theorem carries_readString (source : List Char) :
    Carries source trail (readString source) (readString (source ++ trail)) := by
  have opening : ['"', '"'] <+: source ++ trail ↔ ['"', '"'] <+: source :=
    prefix_separators separated (by simp)
  unfold readString
  split
  · rename_i inner
    have block := ((carries_readRaw separated inner).map BlockString.value).map
      fun value => Token.blockString (String.ofList value)
    exact block.mono ⟨['"', '"'], rfl⟩
  · rename_i single
    split
    · rename_i inner shape
      obtain ⟨others, rfl⟩ := opening.1 (by simp [shape])
      exact absurd rfl (single others)
    · exact (carries_readAfter separated 0 source).map
        fun value => Token.string (String.ofList value)

end Strings

section Scans

variable {trail : List Char} (separated : trail.all isSeparator = true)
include separated

/-- A token in front of separators. -/
theorem carries_readToken (first : Char) (rest : List Char) :
    Carries (first :: rest) trail (readToken first rest) (readToken first (rest ++ trail)) := by
  have names := takeWhile_append_leaves rest (delimited_separators separated).leaves_name
  unfold readToken
  split
  · exact .ok _ (List.suffix_cons first rest)
  by_cases point : first = '.'
  · rw [if_pos point, if_pos point]
    have opening : ['.', '.'] <+: rest ++ trail ↔ ['.', '.'] <+: rest := by
      refine ⟨fun front => prefix_of_prefix_append front fun next inFront inside => ?_,
        fun front => front.trans (List.prefix_append _ _)⟩
      have delimiter := delimited_separators separated next inFront
      simp only [List.mem_cons, List.not_mem_nil, or_false, or_self] at inside
      subst inside
      exact absurd delimiter (by decide)
    split
    · rename_i others
      exact .ok _ ⟨[first, '.', '.'], rfl⟩
    · rename_i single
      split
      · rename_i others shape
        obtain ⟨others, rfl⟩ := opening.1 (by simp [shape])
        exact absurd rfl (single others)
      · exact carries_fault _ _
  rw [if_neg point, if_neg point]
  by_cases quote : first = '"'
  · rw [if_pos quote, if_pos quote]
    exact (carries_readString separated rest).mono (List.suffix_cons first rest)
  rw [if_neg quote, if_neg quote]
  by_cases number : (first.isDigit || first == '-') = true
  · rw [if_pos number, if_pos number]
    exact carries_readNumber separated (first :: rest)
  rw [if_neg number, if_neg number]
  by_cases name : isNameStart first = true
  · rw [if_pos name, if_pos name, names.1, names.2]
    exact .ok _ ((List.dropWhile_suffix _).trans (List.suffix_cons first rest))
  rw [if_neg name, if_neg name]
  split
  · exact carries_fault _ _
  · exact carries_fault _ _

/-- Separators behind separators and comments are passed over. -/
theorem skipIgnored_separators {source : List Char} {inComment : Bool}
    (skipped : skipIgnored inComment source = []) : skipIgnored inComment (source ++ trail) = [] := by
  induction source generalizing inComment with
  | nil =>
    clear skipped
    rw [List.nil_append]
    induction trail generalizing inComment with
    | nil => rfl
    | cons first others inductionHypothesis =>
      rw [List.all_cons, Bool.and_eq_true] at separated
      rw [skipIgnored]
      split
      · exact inductionHypothesis separated.2
      · split
        · exact inductionHypothesis separated.2
        · rw [if_pos separated.1]
          exact inductionHypothesis separated.2
  | cons character others inductionHypothesis =>
    rw [List.cons_append]
    rw [skipIgnored] at skipped ⊢
    split at skipped
    · rename_i passed
      rw [if_pos passed]
      exact inductionHypothesis skipped
    · rename_i notPassed
      rw [if_neg notPassed]
      split at skipped
      · rename_i opens
        rw [if_pos opens]
        exact inductionHypothesis skipped
      · rename_i noComment
        rw [if_neg noComment]
        split at skipped
        · rename_i separator
          rw [if_pos separator]
          exact inductionHypothesis skipped
        · contradiction

/-- In front of separators a text has the same tokens, and a fault if it had one, which is
found in the stead of the other one. The fault of a text names an end of it. -/
theorem scan_separators (source : List Char) :
    (scan (source ++ trail)).lexemes = (scan source).lexemes.map (·.before trail) ∧
      ((scan source).fault = none → (scan (source ++ trail)).fault = none) ∧
      ∀ fault, (scan source).fault = some fault → ∃ further,
        (scan (source ++ trail)).fault = some further ∧ fault.source <:+ source ∧
          fault.Reaches trail further := by
  fun_induction scan source with
  | case1 source skipped =>
    rw [scan_of_skipped_nil (skipIgnored_separators separated skipped)]
    exact ⟨rfl, fun _ => rfl, by simp⟩
  | case2 source first rest skipped fault read =>
    obtain ⟨further, again, suffix, reaches⟩ :=
      (read ▸ carries_readToken separated first rest).of_error
    have begun := skipped ▸ skipIgnored_suffix false source
    rw [scan_of_error (skipIgnored_before skipped trail) again]
    refine ⟨rfl, by simp, ?_⟩
    rintro other ⟨⟩
    exact ⟨further, rfl, suffix.trans begun, reaches⟩
  | case3 source first rest skipped token remaining read others inductionHypothesis =>
    have delimited : remaining = [] → Delimited trail := fun _ => delimited_separators separated
    obtain ⟨lexemes, faultless, faulty⟩ := inductionHypothesis
    obtain ⟨spelling, -, split⟩ := readToken_ok read
    have left : remaining <:+ first :: rest := ⟨spelling, split.symm⟩
    have begun := skipped ▸ skipIgnored_suffix false source
    rw [scan_of_ok (skipIgnored_before skipped trail) (readToken_before trail read delimited)]
    refine ⟨by rw [lexemes]; rfl, faultless, ?_⟩
    intro fault found
    obtain ⟨further, again, suffix, reaches⟩ := faulty fault found
    exact ⟨further, again, suffix.trans (left.trans begun), reaches⟩

end Scans

end GraphQLCanon.Lexical
