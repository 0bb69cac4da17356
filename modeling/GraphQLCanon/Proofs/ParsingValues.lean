import GraphQLCanon.Proofs.Admissible
import GraphQLCanon.Proofs.Repetition

/-!
# Parsing values, types and directives

The parsers of values, types and directives yield only what the grammar admits,
from the tokens that write it, and take every such form back. Only an argument list
behind a directive, and a mark or another directive behind what they may follow,
would prolong a form.
-/

namespace GraphQLCanon.Grammar.Parser

open GraphQLCanon.Lexical

variable {tokens rest : List Token}

/-- What a name stands for is written as that name. -/
theorem tokens_valueOfName (text : String) : (valueOfName text).tokens = [.name text] := by
  unfold valueOfName
  split
  · rename_i same
    rw [same]
    rfl
  · split
    · rename_i same
      rw [same]
      rfl
    · split
      · rename_i same
        rw [same]
        rfl
      · rfl

/-- What a name stands for fits everywhere. -/
theorem fits_valueOfName (constant : Bool) (allowance : Nat) (text : String) :
    (valueOfName text).Fits constant allowance := by
  unfold valueOfName
  split
  · exact .boolean true
  · split
    · exact .boolean false
    · split
      · exact .null
      · exact .enum text (by simp_all [literalNames])

section Soundness

/-- A named value is written as its name, a colon and the value. -/
theorem namedValue_sound {item : Parser Value} {valid : Value → Prop}
    (sound : Sound item Value.tokens valid) :
    Sound (namedValue item) namedTokens (fun field => valid field.2) := by
  intro tokens field rest taken
  unfold namedValue at taken
  obtain ⟨fieldName, behind, named, further⟩ := bind_eq_ok.1 taken
  obtain ⟨_, value, signed, further⟩ := bind_eq_ok.1 further
  obtain ⟨result, last, one, done⟩ := bind_eq_ok.1 further
  obtain ⟨rfl, rfl⟩ := pure_eq_ok.1 done
  obtain ⟨resultValid, resultTaken⟩ := sound one
  rw [name_eq_ok named, expect_eq_ok signed]
  exact ⟨resultValid, (resultTaken.cons _).cons _⟩

/-- A variable is written as a dollar sign and its name, and has no place among
constants. -/
theorem variableValue_sound (constant : Bool) (allowance : Nat) :
    Sound (variableValue constant) Value.tokens (Value.Fits constant allowance) := by
  intro tokens result rest taken
  unfold variableValue at taken
  rw [bind_of_ok (get_eq tokens)] at taken
  obtain ⟨_, behind, signed, further⟩ := bind_eq_ok.1 taken
  cases constant with
  | true =>
    cases behind with
    | nil => cases further
    | cons token others => cases token <;> cases further
  | false =>
    obtain ⟨text, last, named, done⟩ := bind_eq_ok.1 further
    obtain ⟨rfl, rfl⟩ := pure_eq_ok.1 done
    rw [expect_eq_ok signed, name_eq_ok named]
    exact ⟨.variableRef text rfl, (Takes.one _ _).cons _⟩

/-- A value that was parsed fits, and was written by the tokens taken. -/
theorem value_sound (constant : Bool) (allowance : Nat) :
    Sound (value constant allowance) Value.tokens (Value.Fits constant allowance) := by
  induction allowance with
  | zero =>
    intro tokens result rest taken
    unfold value at taken
    rw [bind_of_ok (peek_eq tokens)] at taken
    cases tokens with
    | nil => cases taken
    | cons token others =>
      cases token with
      | punctuator sign =>
        cases sign with
        | dollar => exact variableValue_sound constant 0 taken
        | _ => cases taken
      | name text =>
        cases taken
        rw [tokens_valueOfName]
        exact ⟨fits_valueOfName constant 0 text, Takes.one _ _⟩
      | _ =>
        cases taken
        exact ⟨by constructor, Takes.one _ _⟩
  | succ inner inductionHypothesis =>
    intro tokens result rest taken
    unfold value at taken
    rw [bind_of_ok (peek_eq tokens)] at taken
    cases tokens with
    | nil => cases taken
    | cons token others =>
      cases token with
      | punctuator sign =>
        cases sign with
        | dollar => exact variableValue_sound constant (inner + 1) taken
        | openBracket =>
          obtain ⟨items, last, several, done⟩ := bind_eq_ok.1 taken
          obtain ⟨rfl, rfl⟩ := pure_eq_ok.1 done
          obtain ⟨itemsFit, itemsTaken⟩ := enclosed_sound inductionHypothesis several
          rw [Value.tokens, Value.tokensEach_eq_flatMap]
          exact ⟨.list items itemsFit, itemsTaken.plain⟩
        | openBrace =>
          obtain ⟨fields, last, several, done⟩ := bind_eq_ok.1 taken
          obtain ⟨rfl, rfl⟩ := pure_eq_ok.1 done
          obtain ⟨fieldsFit, fieldsTaken⟩ :=
            enclosed_sound (namedValue_sound inductionHypothesis) several
          rw [Value.tokens, Value.tokensFields_eq_flatMap]
          exact ⟨.object fields fieldsFit, fieldsTaken.plain⟩
        | _ => cases taken
      | name text =>
        cases taken
        rw [tokens_valueOfName]
        exact ⟨fits_valueOfName constant (inner + 1) text, Takes.one _ _⟩
      | _ =>
        cases taken
        exact ⟨by constructor, Takes.one _ _⟩

/-- A type reference behind which a mark is looked for. -/
def marked (base : TypeReference) : Parser TypeReference := do
  if ← skip .bang then return .nonNull base else return base

/-- A type that may carry a mark is written with the mark if one was taken. -/
theorem marked_sound {allowance : Nat} {base result : TypeReference} {middle : List Token}
    (nullable : ∀ inner, base ≠ .nonNull inner) (fits : base.Fits allowance)
    (baseTaken : Takes tokens middle base.tokens)
    (taken : marked base middle = .ok (result, rest)) :
    result.Fits allowance ∧ Takes tokens rest result.tokens := by
  unfold marked at taken
  obtain ⟨passed, behind, looked, done⟩ := bind_eq_ok.1 taken
  rcases skip_eq_ok looked with ⟨rfl, rfl⟩ | ⟨rfl, rfl, -⟩
  · obtain ⟨rfl, rfl⟩ := pure_eq_ok.1 done
    exact ⟨.nonNull base nullable fits, baseTaken.trans (Takes.one _ _)⟩
  · obtain ⟨rfl, rfl⟩ := pure_eq_ok.1 done
    exact ⟨fits, baseTaken⟩

/-- A type reference that was parsed fits, and was written by the tokens taken. -/
theorem typeReference_sound (allowance : Nat) :
    Sound (typeReference allowance) TypeReference.tokens (TypeReference.Fits allowance) := by
  induction allowance with
  | zero =>
    intro tokens result rest taken
    unfold typeReference at taken
    obtain ⟨passed, behind, looked, onward⟩ := bind_eq_ok.1 taken
    rcases skip_eq_ok looked with ⟨rfl, -⟩ | ⟨rfl, rfl, -⟩
    · cases onward
    · obtain ⟨text, last, named, further⟩ := bind_eq_ok.1 onward
      rw [name_eq_ok named]
      exact marked_sound (by simp) (.named text) (Takes.one _ _) further
  | succ inner inductionHypothesis =>
    intro tokens result rest taken
    unfold typeReference at taken
    obtain ⟨passed, behind, looked, onward⟩ := bind_eq_ok.1 taken
    rcases skip_eq_ok looked with ⟨rfl, rfl⟩ | ⟨rfl, rfl, -⟩
    · obtain ⟨item, shut, one, onward⟩ := bind_eq_ok.1 onward
      obtain ⟨_, last, signed, further⟩ := bind_eq_ok.1 onward
      obtain ⟨itemFits, itemTaken⟩ := inductionHypothesis one
      rw [expect_eq_ok signed] at itemTaken
      exact marked_sound (by simp) (.list item itemFits)
        ((itemTaken.trans (Takes.one _ _)).cons _) further
    · obtain ⟨text, last, named, further⟩ := bind_eq_ok.1 onward
      rw [name_eq_ok named]
      exact marked_sound (by simp) (.named text) (Takes.one _ _) further

/-- Arguments that were parsed fit, and were written by the tokens taken. -/
theorem arguments_sound (constant : Bool) (allowance : Nat) :
    Sound (arguments constant allowance) argumentTokens (ArgumentsFit constant allowance) := by
  intro tokens fields rest taken
  obtain ⟨fieldsFit, fieldsTaken⟩ :=
    optionallyEnclosed_sound (namedValue_sound (value_sound constant allowance)) _ _ taken
  exact ⟨fieldsFit, fieldsTaken.plain⟩

/-- The arguments of a directive that was parsed fit, and the directive was written by
the tokens taken. -/
theorem directive_sound (constant : Bool) (allowance : Nat) :
    Sound (directive constant allowance) Directive.tokens
      (fun directive => ArgumentsFit constant allowance directive.arguments) := by
  intro tokens result rest taken
  unfold directive at taken
  obtain ⟨_, behind, signed, further⟩ := bind_eq_ok.1 taken
  obtain ⟨directiveName, middle, named, further⟩ := bind_eq_ok.1 further
  obtain ⟨directiveArguments, last, several, done⟩ := bind_eq_ok.1 further
  obtain ⟨rfl, rfl⟩ := pure_eq_ok.1 done
  obtain ⟨argumentsFit, argumentsTaken⟩ := arguments_sound constant allowance several
  rw [expect_eq_ok signed, name_eq_ok named]
  exact ⟨argumentsFit, (argumentsTaken.cons _).cons _⟩

/-- Directives that were parsed fit, and were written by the tokens taken. -/
theorem directives_sound (constant : Bool) (allowance : Nat) :
    Sound (directives constant allowance) directiveTokens (DirectivesFit constant allowance) := by
  intro tokens result rest taken
  unfold directives at taken
  rw [bind_of_ok (sees_eq _ _)] at taken
  split at taken
  · rw [bind_of_ok (bound_eq _)] at taken
    obtain ⟨resultsFit, resultsTaken⟩ := itemsWhile_sound (directive_sound constant allowance) taken
    exact ⟨resultsFit, resultsTaken.plain⟩
  · obtain ⟨rfl, rfl⟩ := pure_eq_ok.1 taken
    exact ⟨by simp [DirectivesFit], Takes.none _⟩

end Soundness

section Completeness

/-- A name is taken back in front of anything. -/
theorem name_returns (text : String) : Returns name [.name text] text [] :=
  fun rest _ => name_cons text rest

/-- A named value is taken back as its value is. -/
theorem namedValue_returns {item : Parser Value} {field : String × Value}
    (returns : Returns item field.2.tokens field.2 []) :
    Returns (namedValue item) (namedTokens field) field [] := by
  intro rest clear
  have one := returns rest clear
  unfold namedValue
  refine (bind_of_ok (name_cons field.1 _)).trans ?_
  refine (bind_of_ok (expect_cons .colon _)).trans ?_
  exact bind_of_ok one

/-- A value that fits is taken back, in front of anything. -/
theorem value_returns {constant : Bool} {allowance : Nat} {result : Value}
    (fits : result.Fits constant allowance) :
    Returns (value constant allowance) result.tokens result [] := by
  induction fits with
  | variableRef name free =>
    intro rest _
    subst free
    unfold value
    rfl
  | int text | float text | string text | blockString text =>
    intro rest _
    unfold value
    rfl
  | boolean result =>
    intro rest _
    unfold value
    cases result <;> rfl
  | null =>
    intro rest _
    unfold value
    rfl
  | enum name free =>
    intro rest _
    have stands : valueOfName name = .enum name := by
      simp only [literalNames, List.mem_cons, List.not_mem_nil, or_false, not_or] at free
      simp [valueOfName, free]
    unfold value
    rw [← stands, tokens_valueOfName]
    rfl
  | list items fits inductionHypothesis =>
    have apart : Apart (value constant _) Value.tokens .closeBracket [] items := {
      unbarred := by simp
      returned := inductionHypothesis
      begun := fun item inside rest => by simpa [Clear] using item.head_tokens rest }
    intro rest clear
    rw [Value.tokens, Value.tokensEach_eq_flatMap]
    unfold value
    refine (bind_of_ok (peek_eq _)).trans ?_
    exact bind_of_ok (enclosed_returns apart rest clear)
  | object fields fits inductionHypothesis =>
    have apart : Apart (namedValue (value constant _)) namedTokens .closeBrace [] fields := {
      unbarred := by simp
      returned := fun field inside => namedValue_returns (inductionHypothesis field inside)
      begun := fun field inside rest => by simp [Clear, namedTokens] }
    intro rest clear
    rw [Value.tokens, Value.tokensFields_eq_flatMap]
    unfold value
    refine (bind_of_ok (peek_eq _)).trans ?_
    exact bind_of_ok (enclosed_returns apart rest clear)

/-- In front of anything but a mark, a type stays unmarked. -/
theorem marked_of_clear (base : TypeReference) (clear : Clear [.punctuator .bang] tokens) :
    marked base tokens = .ok (base, tokens) :=
  bind_of_ok (skip_of_head_ne (clear _ List.mem_cons_self))

/-- A type that is not marked is taken back up to the place where a mark is looked
for, and a mark that stands there marks it. -/
theorem typeReference_append {allowance : Nat} {result : TypeReference}
    (fits : result.Fits allowance) :
    ((∀ inner, result ≠ .nonNull inner) → ∀ rest,
      typeReference allowance (result.tokens ++ rest) = marked result rest) ∧
    Returns (typeReference allowance) result.tokens result [.punctuator .bang] := by
  induction fits with
  | @named allowance name =>
    have up (rest : List Token) : typeReference allowance ([.name name] ++ rest) =
        marked (.named name) rest := by
      cases allowance with
      | zero =>
        unfold typeReference
        refine (bind_of_ok (skip_of_head_ne (by simp))).trans ?_
        exact bind_of_ok (name_cons name rest)
      | succ inner =>
        unfold typeReference
        refine (bind_of_ok (skip_of_head_ne (by simp))).trans ?_
        exact bind_of_ok (name_cons name rest)
    exact ⟨fun _ => up, fun rest clear => (up rest).trans (marked_of_clear _ clear)⟩
  | @list inner item fits inductionHypothesis =>
    have up (rest : List Token) :
        typeReference (inner + 1) ((TypeReference.list item).tokens ++ rest) =
        marked (.list item) rest := by
      have one := inductionHypothesis.2 (.punctuator .closeBracket :: rest) (by simp [Clear])
      rw [TypeReference.tokens, List.cons_append, List.append_assoc]
      unfold typeReference
      refine (bind_of_ok (skip_cons .openBracket _)).trans ?_
      refine (bind_of_ok one).trans ?_
      exact bind_of_ok (expect_cons .closeBracket rest)
    exact ⟨fun _ => up, fun rest clear => (up rest).trans (marked_of_clear _ clear)⟩
  | nonNull type nullable fits inductionHypothesis =>
    refine ⟨fun unmarked => absurd rfl (unmarked type), fun rest _ => ?_⟩
    rw [TypeReference.tokens, List.append_assoc, inductionHypothesis.1 nullable]
    exact bind_of_ok (skip_cons .bang rest)

/-- A type reference that fits is taken back, in front of anything but a mark. -/
theorem typeReference_returns {allowance : Nat} {result : TypeReference}
    (fits : result.Fits allowance) :
    Returns (typeReference allowance) result.tokens result [.punctuator .bang] :=
  (typeReference_append fits).2

/-- Arguments that fit are taken back, in front of anything but other arguments. -/
theorem arguments_returns {constant : Bool} {allowance : Nat} {fields : List (String × Value)}
    (fit : ArgumentsFit constant allowance fields) :
    Returns (arguments constant allowance) (argumentTokens fields) fields
      [.punctuator .openParenthesis] := by
  have apart : Apart (namedValue (value constant allowance)) namedTokens .closeParenthesis []
      fields := {
    unbarred := by simp
    returned := fun field inside => namedValue_returns (value_returns (fit field inside))
    begun := fun field inside rest => by simp [Clear, namedTokens] }
  exact optionallyEnclosed_returns apart

/-- A directive whose arguments fit is taken back, in front of anything but
arguments. -/
theorem directive_returns {constant : Bool} {allowance : Nat} {result : Directive}
    (fit : ArgumentsFit constant allowance result.arguments) :
    Returns (directive constant allowance) result.tokens result
      [.punctuator .openParenthesis] := by
  intro rest clear
  unfold directive
  refine (bind_of_ok (expect_cons .atSign _)).trans ?_
  refine (bind_of_ok (name_cons result.name _)).trans ?_
  exact bind_of_ok (arguments_returns fit rest clear)

/-- Directives that fit are taken back, in front of anything but another directive or
arguments. -/
theorem directives_returns {constant : Bool} {allowance : Nat} {results : List Directive}
    (fit : DirectivesFit constant allowance results) :
    Returns (directives constant allowance) (directiveTokens results) results
      [.punctuator .atSign, .punctuator .openParenthesis] := by
  intro rest clear
  unfold directives
  rw [bind_of_ok (sees_eq _ _)]
  cases results with
  | nil =>
    rw [if_neg (by simpa [directiveTokens] using clear _ List.mem_cons_self)]
    rfl
  | cons first others =>
    have enough : (first :: others).length ≤
        (directiveTokens (first :: others) ++ rest).length + 1 := by
      have counted : (first :: others).length ≤
          ((first :: others).flatMap Directive.tokens).length :=
        length_le_flatMap (by simp [Directive.tokens])
      simp only [directiveTokens, List.length_append] at counted ⊢
      omega
    rw [if_pos (by simp [directiveTokens, Directive.tokens]), bind_of_ok (bound_eq _)]
    exact itemsWhile_returns enough (by simp)
      (fun result inside => directive_returns (fit result inside)) (fun result _ => rfl) rest clear

end Completeness

end GraphQLCanon.Grammar.Parser
