import GraphQLCanon.Grammar.Parser.Basic

/-!
# What parsers take

A parser that succeeds has taken tokens off the front of its input. The basic
parsers are described exactly: what they take and yield, and in front of which
tokens. Sequences and repetitions are described by their parts.
-/

namespace GraphQLCanon.Grammar.Parser

open GraphQLCanon.Lexical

variable {α β : Type} {tokens middle rest : List Token}

/-- Behind a parser that succeeds, the next one goes on with what it yielded. -/
theorem bind_of_ok {parser : Parser α} {next : α → Parser β} {value : α}
    (taken : parser tokens = .ok (value, middle)) :
    (parser >>= next) tokens = next value middle := by
  simp [bind, StateT.bind, Except.bind, taken]

/-- A parser followed by another one succeeds when both do, one behind the other. -/
theorem bind_eq_ok {parser : Parser α} {next : α → Parser β} {result : β} :
    (parser >>= next) tokens = .ok (result, rest) ↔
      ∃ value middle, parser tokens = .ok (value, middle) ∧
        next value middle = .ok (result, rest) := by
  cases taken : parser tokens with
  | error refusal => simp [bind, StateT.bind, Except.bind, taken]
  | ok parts =>
    rw [bind_of_ok taken]
    constructor
    · intro further
      exact ⟨parts.1, parts.2, rfl, further⟩
    · rintro ⟨value, middle, same, further⟩
      cases same
      exact further

/-- Yielding a value leaves the tokens where they are. -/
theorem pure_eq (value : α) (tokens : List Token) :
    (pure value : Parser α) tokens = .ok (value, tokens) := rfl

/-- Yielding a value takes nothing. -/
theorem pure_eq_ok {value result : α} :
    (pure value : Parser α) tokens = .ok (result, rest) ↔ value = result ∧ tokens = rest := by
  simp [pure_eq]

/-- A change of what is yielded takes what the parser takes. -/
theorem map_eq_ok {parser : Parser α} {change : α → β} {result : β} :
    (change <$> parser) tokens = .ok (result, rest) ↔
      ∃ value, parser tokens = .ok (value, rest) ∧ change value = result := by
  have sequence : (change <$> parser) = parser >>= fun value => pure (change value) := rfl
  rw [sequence, bind_eq_ok]
  constructor
  · rintro ⟨value, middle, taken, yielded⟩
    obtain ⟨rfl, rfl⟩ := pure_eq_ok.1 yielded
    exact ⟨value, taken, rfl⟩
  · rintro ⟨value, taken, rfl⟩
    exact ⟨value, rest, taken, rfl⟩

/-- A refusal takes nothing. -/
theorem refuse_ne_ok {cause : Option Token → RefusalCause} {result : α × List Token} :
    refuse cause tokens ≠ .ok result := by
  simp [refuse]

/-- Looking at the token in front leaves it there. -/
theorem peek_eq (tokens : List Token) : peek tokens = .ok (tokens.head?, tokens) := rfl

/-- A bound on repetition is one more than the tokens in front. -/
theorem bound_eq (tokens : List Token) : bound tokens = .ok (tokens.length + 1, tokens) := rfl

/-- The input is left as it is when it is asked for. -/
theorem get_eq (tokens : List Token) : (get : Parser (List Token)) tokens = .ok (tokens, tokens) :=
  rfl

/-- Asking for a sign takes nothing. -/
theorem sees_eq (sign : Punctuator) (tokens : List Token) :
    sees sign tokens = .ok (tokens.head? == some (.punctuator sign), tokens) := rfl

/-- A sign that is in front is passed. -/
theorem skip_cons (sign : Punctuator) (rest : List Token) :
    skip sign (.punctuator sign :: rest) = .ok (true, rest) := by
  unfold skip
  rw [bind_of_ok (sees_eq sign _)]
  simp [advance, bind, StateT.bind, Except.bind, pure_eq]

/-- A sign that is not in front is not passed. -/
theorem skip_of_head_ne {sign : Punctuator} (other : tokens.head? ≠ some (.punctuator sign)) :
    skip sign tokens = .ok (false, tokens) := by
  unfold skip
  rw [bind_of_ok (sees_eq sign _)]
  simp [other, pure_eq]

/-- What passing a sign tells: the sign was in front, or nothing was taken. -/
theorem skip_eq_ok {sign : Punctuator} {passed : Bool}
    (taken : skip sign tokens = .ok (passed, rest)) :
    (passed = true ∧ tokens = .punctuator sign :: rest) ∨
      (passed = false ∧ tokens = rest ∧ tokens.head? ≠ some (.punctuator sign)) := by
  by_cases inFront : tokens.head? = some (.punctuator sign)
  · obtain ⟨others, rfl⟩ := List.head?_eq_some_iff.1 inFront
    rw [skip_cons] at taken
    cases taken
    exact .inl ⟨rfl, rfl⟩
  · rw [skip_of_head_ne inFront] at taken
    cases taken
    exact .inr ⟨rfl, rfl, inFront⟩

/-- A sign that has to be in front is taken. -/
theorem expect_cons (sign : Punctuator) (rest : List Token) :
    expect sign (.punctuator sign :: rest) = .ok ((), rest) := by
  unfold expect
  rw [bind_of_ok (sees_eq sign _)]
  simp [advance]

/-- A sign that had to be in front was. -/
theorem expect_eq_ok {sign : Punctuator} {result : Unit}
    (taken : expect sign tokens = .ok (result, rest)) : tokens = .punctuator sign :: rest := by
  unfold expect at taken
  rw [bind_of_ok (sees_eq sign _)] at taken
  split at taken
  · rename_i inFront
    obtain ⟨others, rfl⟩ := List.head?_eq_some_iff.1 (by simpa using inFront)
    cases taken
    rfl
  · exact absurd taken refuse_ne_ok

/-- A word that has to be in front is taken. -/
theorem expectKeyword_cons (word : String) (rest : List Token) :
    expectKeyword word (.name word :: rest) = .ok ((), rest) := by
  unfold expectKeyword seesKeyword
  simp [bind, StateT.bind, Except.bind, advance]

/-- A word that had to be in front was. -/
theorem expectKeyword_eq_ok {word : String} {result : Unit}
    (taken : expectKeyword word tokens = .ok (result, rest)) : tokens = .name word :: rest := by
  unfold expectKeyword at taken
  have looked : seesKeyword word tokens = .ok (tokens.head? == some (.name word), tokens) := rfl
  rw [bind_of_ok looked] at taken
  split at taken
  · rename_i inFront
    obtain ⟨others, rfl⟩ := List.head?_eq_some_iff.1 (by simpa using inFront)
    cases taken
    rfl
  · exact absurd taken refuse_ne_ok

/-- A word that is in front is passed. -/
theorem skipKeyword_cons (word : String) (rest : List Token) :
    skipKeyword word (.name word :: rest) = .ok (true, rest) := by
  unfold skipKeyword seesKeyword
  simp [bind, StateT.bind, Except.bind, advance, pure_eq]

/-- A word that is not in front is not passed. -/
theorem skipKeyword_of_head_ne {word : String} (other : tokens.head? ≠ some (.name word)) :
    skipKeyword word tokens = .ok (false, tokens) := by
  unfold skipKeyword seesKeyword
  simp [bind, StateT.bind, Except.bind, other, pure_eq]

/-- What passing a word tells: the word was in front, or nothing was taken. -/
theorem skipKeyword_eq_ok {word : String} {passed : Bool}
    (taken : skipKeyword word tokens = .ok (passed, rest)) :
    (passed = true ∧ tokens = .name word :: rest) ∨
      (passed = false ∧ tokens = rest ∧ tokens.head? ≠ some (.name word)) := by
  by_cases inFront : tokens.head? = some (.name word)
  · obtain ⟨others, rfl⟩ := List.head?_eq_some_iff.1 inFront
    rw [skipKeyword_cons] at taken
    cases taken
    exact .inl ⟨rfl, rfl⟩
  · rw [skipKeyword_of_head_ne inFront] at taken
    cases taken
    exact .inr ⟨rfl, rfl, inFront⟩

/-- A name is taken. -/
theorem name_cons (text : String) (rest : List Token) :
    name (.name text :: rest) = .ok (text, rest) := rfl

/-- What was taken as a name was a name. -/
theorem name_eq_ok {text : String} (taken : name tokens = .ok (text, rest)) :
    tokens = .name text :: rest := by
  cases tokens with
  | nil => cases taken
  | cons token others =>
    cases token <;> cases taken
    rfl

/-- Where no name is in front, none is taken. -/
theorem optionalName_of_head_ne (other : ∀ text, tokens.head? ≠ some (.name text)) :
    optionalName tokens = .ok (none, tokens) := by
  cases tokens with
  | nil => rfl
  | cons token others =>
    cases token with
    | name text => exact absurd rfl (other text)
    | _ => rfl

/-- What was taken as a name that may be missing. -/
theorem optionalName_eq_ok {found : Option String}
    (taken : optionalName tokens = .ok (found, rest)) :
    (∃ text, found = some text ∧ tokens = .name text :: rest) ∨
      (found = none ∧ tokens = rest) := by
  cases tokens with
  | nil =>
    cases taken
    exact .inr ⟨rfl, rfl⟩
  | cons token others =>
    cases token with
    | name text =>
      cases taken
      exact .inl ⟨text, rfl, rfl⟩
    | _ =>
      cases taken
      exact .inr ⟨rfl, rfl⟩

/-- True when a string of either form is in front. -/
def Describes (tokens : List Token) : Prop :=
  ∃ value, tokens.head? = some (.string value) ∨ tokens.head? = some (.blockString value)

/-- Where no string is in front, no description is taken. -/
theorem optionalDescription_of_not (plain : ¬Describes tokens) :
    optionalDescription tokens = .ok (none, tokens) := by
  cases tokens with
  | nil => rfl
  | cons token others =>
    cases token with
    | string value => exact (plain ⟨value, .inl rfl⟩).elim
    | blockString value => exact (plain ⟨value, .inr rfl⟩).elim
    | _ => rfl

/-- What was taken as a description was a string of either form, or nothing. -/
theorem optionalDescription_eq_ok {found : Option String}
    (taken : optionalDescription tokens = .ok (found, rest)) :
    (∃ value, found = some value ∧
      (tokens = .string value :: rest ∨ tokens = .blockString value :: rest)) ∨
      (found = none ∧ tokens = rest) := by
  cases tokens with
  | nil =>
    cases taken
    exact .inr ⟨rfl, rfl⟩
  | cons token others =>
    cases token with
    | string value =>
      cases taken
      exact .inl ⟨value, rfl, .inl rfl⟩
    | blockString value =>
      cases taken
      exact .inl ⟨value, rfl, .inr rfl⟩
    | _ =>
      cases taken
      exact .inr ⟨rfl, rfl⟩

end GraphQLCanon.Grammar.Parser
