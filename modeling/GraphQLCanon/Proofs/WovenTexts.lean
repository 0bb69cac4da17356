import GraphQLCanon.Proofs.Written

/-!
# Texts woven from tokens

A text on one line is woven from its tokens: their spellings in order, with spaces and
commas between them where they are needed, none in front and at the end at most a comma.
So it begins and ends with characters that are not blank, it spells its tokens, and when it
ends with a sign it needs no delimiter.
-/

namespace GraphQLCanon.Lexical

/-- What may stand between two tokens on a line. -/
def isSpacing (character : Char) : Bool := character == ' ' || character == ','

/-- A punctuator at the end of some tokens needs no delimiter. -/
def EndsInSign (tokens : List Token) : Prop := ∃ sign, tokens.getLast? = some (.punctuator sign)

/-- The spellings of some tokens, with spacing between them and perhaps a comma behind them.
A token that is not a sign has a delimiter behind it. -/
inductive Woven : List Char → List Token → Prop
  | token {token : Token} (legible : token.Legible) : Woven token.spelling [token]
  | cons {token : Token} {gap rest : List Char} {tokens : List Token} (legible : token.Legible)
    (spaced : gap.all isSpacing = true)
    (apart : (∃ sign, token = .punctuator sign) ∨ Delimited (gap ++ rest))
    (behind : Woven rest tokens) : Woven (token.spelling ++ (gap ++ rest)) (token :: tokens)
  | comma {text : List Char} {tokens : List Token} (woven : Woven text tokens) :
    Woven (text ++ [',']) tokens

section Ends

/-- Characters of a name are not blank. -/
theorem isBlank_of_isNameContinue {character : Char} (inside : isNameContinue character = true) :
    Text.isBlank character = false := by
  rw [isNameContinue, Bool.or_eq_true, isNameStart_iff, isDigit_iff] at inside
  simp only [Text.isBlank, Text.isWhiteSpace, Bool.or_eq_false_iff, Bool.and_eq_false_iff,
    decide_eq_false_iff_not, beq_eq_false_iff_ne]
  omega

/-- Parts of numbers are not blank. -/
theorem isBlank_of_isNumberPart {character : Char} (inside : isNumberPart character = true) :
    Text.isBlank character = false := by
  rw [isNumberPart, Bool.or_eq_true] at inside
  rcases inside with digit | part
  · exact isBlank_of_isNameContinue (by simp [isNameContinue, digit])
  · simp only [List.contains_iff_mem, List.mem_cons, List.not_mem_nil, or_false] at part
    rcases part with rfl | rfl | rfl | rfl | rfl <;> decide

/-- A legible token is spelled without blanks, unless it is a string of either form. -/
theorem Token.Legible.unblank_or_string {token : Token} (legible : token.Legible) :
    (∀ character ∈ token.spelling, Text.isBlank character = false) ∨
      (∃ value, token = .string value) ∨
        ∃ raw, token = .blockString (String.ofList (BlockString.value raw)) := by
  obtain ⟨first, source, remaining, found⟩ := legible
  rcases readToken_cases found with ⟨sign, rfl⟩ |
    ⟨text, rfl, opening, others, spelled, opened, more⟩ | ⟨-, number⟩ | string | block
  · have solid : (Token.punctuator sign).spelling.all (!Text.isBlank ·) = true := by
      cases sign <;> rfl
    exact .inl (by simpa using solid)
  · refine .inl fun character inside => isBlank_of_isNameContinue ?_
    rw [Token.spelling, spelled, List.mem_cons] at inside
    rcases inside with rfl | later
    · simp [isNameContinue, opened]
    · exact more character later
  · exact .inl fun character inside =>
      isBlank_of_isNumberPart (isNumberPart_of_readNumber number character inside)
  · exact .inr (.inl string)
  · exact .inr (.inr block)

/-- The spelling of a legible token begins and ends with characters that are not blank. -/
theorem Token.Legible.solid {token : Token} (legible : token.Legible) :
    (∃ first rest, token.spelling = first :: rest ∧ Text.isBlank first = false) ∧
      ∃ front last, token.spelling = front ++ [last] ∧ Text.isBlank last = false := by
  rcases legible.unblank_or_string with solid | ⟨value, rfl⟩ | ⟨raw, rfl⟩
  · obtain ⟨start, tail, begun, -⟩ := legible.read delimited_nil
    have nonempty : token.spelling ≠ [] := by simp [begun]
    exact ⟨⟨start, tail, begun, solid start (by simp [begun])⟩,
      ⟨_, _, (List.dropLast_concat_getLast nonempty).symm, solid _ (List.getLast_mem nonempty)⟩⟩
  · exact ⟨⟨'"', _, rfl, by decide⟩, ⟨_, '"', rfl, by decide⟩⟩
  · have quotes (front : List Char) :
        front ++ ['"', '"', '"'] = (front ++ ['"', '"']) ++ ['"'] := by simp
    exact ⟨⟨'"', _, rfl, by decide⟩, ⟨_, '"', quotes _, by decide⟩⟩

end Ends

namespace Woven

variable {text left right : List Char} {tokens before behind : List Token}

/-- A punctuator is woven from itself. -/
theorem sign (sign : Punctuator) : Woven sign.spelling.toList [.punctuator sign] :=
  token (legible_punctuator sign)

/-- What is woven has a token. -/
theorem ne_nil (woven : Woven text tokens) : tokens ≠ [] := by
  induction woven with
  | token _ | cons _ _ _ _ => simp
  | comma _ inductionHypothesis => exact inductionHypothesis

/-- A woven text begins with a character that is not blank. -/
theorem begins (woven : Woven text tokens) :
    ∃ first rest, text = first :: rest ∧ Text.isBlank first = false := by
  induction woven with
  | token legible => exact legible.solid.1
  | cons legible spaced apart behind =>
    obtain ⟨⟨first, rest, spelled, solid⟩, -⟩ := legible.solid
    exact ⟨first, rest ++ _, by rw [spelled, List.cons_append], solid⟩
  | comma woven inductionHypothesis =>
    obtain ⟨first, rest, rfl, solid⟩ := inductionHypothesis
    exact ⟨first, rest ++ [','], rfl, solid⟩

/-- A woven text ends with a character that is not blank. -/
theorem ends (woven : Woven text tokens) :
    ∃ front last, text = front ++ [last] ∧ Text.isBlank last = false := by
  induction woven with
  | token legible => exact legible.solid.2
  | @cons token gap rest tokens legible spaced apart behind inductionHypothesis =>
    obtain ⟨front, last, rfl, solid⟩ := inductionHypothesis
    exact ⟨token.spelling ++ (gap ++ front), last, by simp, solid⟩
  | comma woven inductionHypothesis => exact ⟨_, ',', rfl, by decide⟩

/-- What is woven has a character. -/
theorem text_ne_nil (woven : Woven text tokens) : text ≠ [] := by
  obtain ⟨first, rest, rfl, -⟩ := woven.begins
  simp

/-- Woven texts with spacing between them are woven together, when the first one ends in a
sign or has a delimiter behind it. -/
theorem append (one : Woven left before) (two : Woven right behind) (gap : List Char)
    (spaced : gap.all isSpacing = true) (apart : EndsInSign before ∨ Delimited (gap ++ right)) :
    Woven (left ++ (gap ++ right)) (before ++ behind) := by
  induction one generalizing gap with
  | token legible =>
    refine .cons legible spaced (apart.imp_left ?_) two
    rintro ⟨sign, ends⟩
    exact ⟨sign, by simpa using ends⟩
  | @cons token inner rest tokens legible spacedInner apartInner woven inductionHypothesis =>
    have ends : (token :: tokens).getLast? = tokens.getLast? := by
      obtain ⟨first, others, rfl⟩ := List.exists_cons_of_ne_nil woven.ne_nil
      exact List.getLast?_cons_cons
    rw [EndsInSign, ends] at apart
    rw [List.append_assoc, List.append_assoc]
    refine .cons legible spacedInner (apartInner.imp_right fun delimited => ?_)
      (inductionHypothesis gap spaced apart)
    rw [← List.append_assoc]
    exact delimited.append_of_ne_nil (by simp [woven.text_ne_nil]) _
  | comma woven inductionHypothesis =>
    have more := inductionHypothesis (',' :: gap) (by simpa [isSpacing] using spaced)
      (.inr (by simp; decide))
    simpa using more

/-- Spacing adds nothing. -/
theorem closes_spacing {gap : List Char} (spaced : gap.all isSpacing = true) : Closes gap [] := by
  apply closes_separators
  rw [List.all_eq_true] at spaced ⊢
  intro character inside
  have spacing := spaced character inside
  simp only [isSpacing, Bool.or_eq_true, beq_iff_eq] at spacing
  rcases spacing with rfl | rfl <;> decide

/-- A woven text spells its tokens, and needs no delimiter where it ends in a sign. -/
theorem spells_and_closes (woven : Woven text tokens) :
    Spells text tokens ∧ (EndsInSign tokens → Closes text tokens) := by
  induction woven with
  | token legible =>
    refine ⟨spells_token legible, ?_⟩
    rintro ⟨sign, ends⟩
    obtain rfl := Option.some.inj ends
    exact closes_punctuator sign
  | @cons token gap rest tokens legible spaced apart behind inductionHypothesis =>
    have nonempty : gap ++ rest ≠ [] := by simp [behind.text_ne_nil]
    have ends : (token :: tokens).getLast? = tokens.getLast? := by
      obtain ⟨first, others, rfl⟩ := List.exists_cons_of_ne_nil behind.ne_nil
      exact List.getLast?_cons_cons
    have more := (closes_spacing spaced).append_spells inductionHypothesis.1
    rw [EndsInSign, ends]
    rcases apart with ⟨sign, rfl⟩ | delimited
    · exact ⟨(closes_punctuator sign).append_spells more, fun sealed =>
        (closes_punctuator sign).append ((closes_spacing spaced).append
          (inductionHypothesis.2 sealed))⟩
    · exact ⟨(spells_token legible).append more delimited, fun sealed =>
        (spells_token legible).append_closes ((closes_spacing spaced).append
          (inductionHypothesis.2 sealed)) delimited nonempty⟩
  | comma woven inductionHypothesis =>
    have comma : Closes [','] [] := closes_spacing rfl
    have whole := inductionHypothesis.1.append_closes comma (by simp; decide) (by simp)
    rw [List.append_nil] at whole
    exact ⟨whole.spells, fun _ => whole⟩

/-- A woven text spells its tokens. -/
theorem spells (woven : Woven text tokens) : Spells text tokens := woven.spells_and_closes.1

end Woven

end GraphQLCanon.Lexical
