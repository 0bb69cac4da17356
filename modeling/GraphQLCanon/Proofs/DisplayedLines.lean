import Mathlib.Data.List.Forall2
import GraphQLCanon.Text.Lines
import GraphQLCanon.Proofs.Trimming

/-!
# Texts that are displayed alike

A comparison shows the lines of a text but not the breaks that end them. So two texts
without blanks at their ends have the same displayed lines exactly when they are equal
but for which break stands where.
-/

namespace GraphQLCanon.Text

/-- The breaks between displayed lines. -/
def displayBreaks : List Char :=
  ['\n', '\r', '\x0b', '\x0c', '\x1c', '\x1d', '\x1e', '\u0085', '\u2028', '\u2029']

/-- Characters that displayed lines do not tell apart: equal ones, and two breaks. -/
def AlikeChar (left right : Char) : Prop :=
  left = right ∨ isDisplayBreak left = true ∧ isDisplayBreak right = true

instance (left right : Char) : Decidable (AlikeChar left right) :=
  inferInstanceAs (Decidable (_ ∨ _))

/-- Texts that are equal but for which break stands where. -/
abbrev Alike : List Char → List Char → Prop := List.Forall₂ AlikeChar

section Characters

variable {left right : Char}

/-- The breaks are listed. -/
theorem isDisplayBreak_iff {character : Char} :
    isDisplayBreak character = true ↔ character ∈ displayBreaks := by
  simp only [isDisplayBreak, isLineBreak, Bool.or_eq_true, beq_iff_eq, displayBreaks,
    List.mem_cons, List.not_mem_nil, or_false, or_assoc]

/-- What is true of the listed breaks is true of every break. -/
theorem of_isDisplayBreak {class? : Char → Bool} (all : displayBreaks.all class? = true)
    {character : Char} (broken : isDisplayBreak character = true) : class? character = true :=
  List.all_eq_true.1 all character (isDisplayBreak_iff.1 broken)

/-- Breaks are blank. -/
theorem isBlank_of_isDisplayBreak {character : Char} (broken : isDisplayBreak character = true) :
    isBlank character = true :=
  of_isDisplayBreak (by decide +kernel) broken

/-- What is not blank is no break. -/
theorem isDisplayBreak_eq_false_of_not_blank {character : Char}
    (solid : isBlank character = false) : isDisplayBreak character = false := by
  by_contra broken
  rw [Bool.not_eq_false] at broken
  rw [isBlank_of_isDisplayBreak broken] at solid
  contradiction

/-- Only a character itself is like one that is no break. -/
theorem AlikeChar.eq_of_right (alike : AlikeChar left right)
    (unbroken : isDisplayBreak right = false) : left = right := by
  rcases alike with same | ⟨-, broken⟩
  · exact same
  · rw [unbroken] at broken
    contradiction

/-- It does not matter which of two characters comes first. -/
theorem AlikeChar.symm (alike : AlikeChar left right) : AlikeChar right left :=
  alike.imp Eq.symm And.symm

/-- Of two characters that are alike both are breaks or none. -/
theorem AlikeChar.isDisplayBreak_eq (alike : AlikeChar left right) :
    isDisplayBreak left = isDisplayBreak right := by
  rcases alike with rfl | ⟨one, two⟩
  · rfl
  · rw [one, two]

end Characters

section Texts

variable {left right : List Char}

/-- A text that is like two texts in a row has two such parts. -/
theorem Alike.split {text front behind : List Char} (alike : Alike text (front ++ behind)) :
    ∃ start rest, text = start ++ rest ∧ Alike start front ∧ Alike rest behind :=
  ⟨text.take front.length, text.drop front.length, (List.take_append_drop _ _).symm,
    List.forall₂_take_append text front behind alike,
    List.forall₂_drop_append text front behind alike⟩

/-- Only a text itself is like one without breaks. -/
theorem Alike.eq_of_unbroken (alike : Alike left right)
    (unbroken : ∀ character ∈ right, isDisplayBreak character = false) : left = right := by
  induction alike with
  | nil => rfl
  | cons head tail inductionHypothesis =>
    rw [List.forall_mem_cons] at unbroken
    rw [head.eq_of_right unbroken.1, inductionHypothesis unbroken.2]

/-- A text that is like one that begins without breaks begins in the same way. -/
theorem Alike.split_unbroken {text front behind : List Char} (alike : Alike text (front ++ behind))
    (unbroken : ∀ character ∈ front, isDisplayBreak character = false) :
    ∃ rest, text = front ++ rest ∧ Alike rest behind := by
  obtain ⟨start, rest, rfl, same, tail⟩ := alike.split
  exact ⟨rest, by rw [same.eq_of_unbroken unbroken], tail⟩

/-- It does not matter which of two texts comes first. -/
theorem Alike.symm (alike : Alike left right) : Alike right left :=
  List.Forall₂.flip (alike.imp fun _ _ => AlikeChar.symm)

/-- Texts that are alike have as many characters of a class that has no breaks. -/
theorem Alike.countP_eq (alike : Alike left right) {class? : Char → Bool}
    (apart : ∀ character, isDisplayBreak character = true → class? character = false) :
    left.countP class? = right.countP class? := by
  induction alike with
  | nil => rfl
  | cons head tail inductionHypothesis =>
    rw [List.countP_cons, List.countP_cons, inductionHypothesis]
    rcases head with rfl | ⟨one, two⟩
    · rfl
    · rw [apart _ one, apart _ two]

/-- A text with breaks in front that is alike to itself with other characters behind it consists
of breaks: each of its characters stands where an earlier one or a break does. -/
theorem all_of_alike_shifted {breaks text before behind : List Char}
    (broken : breaks.all isDisplayBreak = true) (nonempty : breaks ≠ [])
    (alike : Alike (breaks ++ text ++ before) (text ++ behind)) :
    text.all isDisplayBreak = true := by
  induction text generalizing breaks with
  | nil => rfl
  | cons character rest inductionHypothesis =>
    obtain ⟨first, others, rfl⟩ := List.exists_cons_of_ne_nil nonempty
    simp only [List.cons_append, List.append_assoc, List.forall₂_cons] at alike
    rw [List.all_cons, Bool.and_eq_true] at broken
    have head : isDisplayBreak character = true :=
      alike.1.isDisplayBreak_eq.symm.trans broken.1
    have tail := @inductionHypothesis (others ++ [character]) (by simp [broken.2, head]) (by simp)
      (by simpa using alike.2)
    rw [List.all_cons, head, tail, Bool.and_self]

end Texts

section Lines

/-- Without carriage returns, a character ends the first line or stands in front of it. -/
theorem splitLines_cons {isBreak : Char → Bool} {character : Char} {rest : List Char}
    (other : '\r' ≠ character) :
    splitLines isBreak (character :: rest) =
      if isBreak character then [] :: splitLines isBreak rest
      else prependToFirst character (splitLines isBreak rest) := by
  rw [splitLines, if_neg (fun both => other both.1.symm)]

/-- The first line with a character in front is not empty. -/
theorem nil_cons_ne_prependToFirst (character : Char) (others lines : List (List Char)) :
    [] :: others ≠ prependToFirst character lines := by
  cases lines <;> simp [prependToFirst]

/-- The character in front of the first line can be taken back. -/
theorem prependToFirst_inj {one two : Char} {first second : List (List Char)} (some : first ≠ [])
    (some' : second ≠ []) :
    prependToFirst one first = prependToFirst two second ↔ one = two ∧ first = second := by
  obtain ⟨line, lines, rfl⟩ := List.exists_cons_of_ne_nil some
  obtain ⟨line', lines', rfl⟩ := List.exists_cons_of_ne_nil some'
  simp only [prependToFirst, List.cons.injEq, and_assoc]

/-- A text without carriage returns that begins with a character has not the lines of the
empty text. -/
theorem splitLines_cons_ne {character : Char} {rest : List Char} (other : '\r' ≠ character) :
    splitLines isDisplayBreak (character :: rest) ≠ [[]] := by
  rw [splitLines_cons other]
  split
  · have some := splitLines_ne_nil isDisplayBreak rest
    simpa using some
  · exact (nil_cons_ne_prependToFirst _ _ _).symm

/-- Texts without carriage returns are cut into the same lines exactly when they are
alike. -/
theorem splitLines_eq_iff {left right : List Char} (returnless : '\r' ∉ left)
    (returnless' : '\r' ∉ right) :
    splitLines isDisplayBreak left = splitLines isDisplayBreak right ↔ Alike left right := by
  induction left generalizing right with
  | nil =>
    cases right with
    | nil => simp
    | cons character rest =>
      rw [List.mem_cons, not_or] at returnless'
      have apart := (@splitLines_cons_ne _ rest returnless'.1).symm
      simpa [splitLines] using apart
  | cons first others inductionHypothesis =>
    rw [List.mem_cons, not_or] at returnless
    cases right with
    | nil =>
      have apart := @splitLines_cons_ne _ others returnless.1
      simpa [splitLines] using apart
    | cons second more =>
      rw [List.mem_cons, not_or] at returnless'
      have behind := @inductionHypothesis more returnless.2 returnless'.2
      have alike : Alike (first :: others) (second :: more) ↔
          AlikeChar first second ∧ Alike others more := List.forall₂_cons
      rw [splitLines_cons returnless.1, splitLines_cons returnless'.1, alike, ← behind, AlikeChar]
      cases one : isDisplayBreak first <;> cases two : isDisplayBreak second
      · simp [prependToFirst_inj (splitLines_ne_nil _ _) (splitLines_ne_nil _ _)]
      · have apart := nil_cons_ne_prependToFirst first (splitLines isDisplayBreak more)
          (splitLines isDisplayBreak others)
        have different : first ≠ second := by
          rintro rfl
          rw [one] at two
          contradiction
        simp [apart.symm, different]
      · have apart := nil_cons_ne_prependToFirst second (splitLines isDisplayBreak others)
          (splitLines isDisplayBreak more)
        have different : first ≠ second := by
          rintro rfl
          rw [one] at two
          contradiction
        simp [apart, different]
      · simp

/-- The last line of a text that ends outside the breaks is not empty. -/
theorem getLast?_splitLines {text : List Char} (nonempty : text ≠ []) (returnless : '\r' ∉ text)
    (closed : ∀ character, text.getLast? = some character → isDisplayBreak character = false) :
    (splitLines isDisplayBreak text).getLast? ≠ some [] := by
  induction text with
  | nil => contradiction
  | cons first rest inductionHypothesis =>
    rw [List.mem_cons, not_or] at returnless
    rw [splitLines_cons returnless.1]
    cases rest with
    | nil =>
      have unbroken : isDisplayBreak first = false := closed first rfl
      simp [unbroken, splitLines, prependToFirst]
    | cons second others =>
      have last := inductionHypothesis (by simp) returnless.2
        (fun character atEnd => closed character (by rwa [List.getLast?_cons_cons]))
      obtain ⟨line, lines, cut⟩ := List.exists_cons_of_ne_nil
        (splitLines_ne_nil isDisplayBreak (second :: others))
      rw [cut] at last ⊢
      split
      · rwa [List.getLast?_cons_cons]
      · cases lines with
        | nil => simp [prependToFirst]
        | cons line' lines =>
          rwa [prependToFirst, List.getLast?_cons_cons, ← List.getLast?_cons_cons]

/-- A text without blanks at its ends ends outside the breaks. -/
theorem closed_of_strip {text : String} (stripped : strip text = text) (character : Char)
    (atEnd : text.toList.getLast? = some character) : isDisplayBreak character = false := by
  have trimmed := trimmed_trimEnds isBlank text.toList
  rw [← toList_strip, stripped] at trimmed
  exact isDisplayBreak_eq_false_of_not_blank (trimmed.last character atEnd)

/-- A text without blanks at its ends has the lines that it is cut into, and no lines if it is
empty. -/
theorem displayLines_eq {text : String} (stripped : strip text = text)
    (returnless : '\r' ∉ text.toList) :
    displayLines text =
      if text = "" then [] else (splitLines isDisplayBreak text.toList).map String.ofList := by
  by_cases empty : text = ""
  · subst empty
    rfl
  · have some : text.toList ≠ [] := by simpa using empty
    have last := getLast?_splitLines some returnless (closed_of_strip stripped)
    rw [displayLines, if_neg last, if_neg empty]

/-- Texts without blanks at their ends have the same displayed lines exactly when they are
alike. -/
theorem displayLines_eq_iff {left right : String} (stripped : strip left = left)
    (stripped' : strip right = right) (returnless : '\r' ∉ left.toList)
    (returnless' : '\r' ∉ right.toList) :
    displayLines left = displayLines right ↔ Alike left.toList right.toList := by
  have lines (text : String) : (splitLines isDisplayBreak text.toList).map String.ofList ≠ [] := by
    simpa using splitLines_ne_nil isDisplayBreak text.toList
  rw [displayLines_eq stripped returnless, displayLines_eq stripped' returnless']
  by_cases one : left = "" <;> by_cases two : right = ""
  · simp [one, two]
  · have some : right.toList ≠ [] := by simpa using two
    rw [if_pos one, if_neg two, one]
    simp [(lines right).symm, some]
  · have some : left.toList ≠ [] := by simpa using one
    rw [if_neg one, if_pos two, two]
    simp [lines left, some]
  · rw [if_neg one, if_neg two, List.map_inj_right fun _ _ same => String.ofList_inj.1 same]
    exact splitLines_eq_iff returnless returnless'

end Lines

end GraphQLCanon.Text
