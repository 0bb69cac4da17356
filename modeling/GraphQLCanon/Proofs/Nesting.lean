import GraphQLCanon.Proofs.WrittenValues

/-!
# Nesting

How many brackets are open behind some tokens. Values, types and lists of names close what
they open, so they leave the number as it was, and a list in brackets does when its items
do.
-/

namespace GraphQLCanon.Lexical

/-- The number of open brackets behind a token. -/
def Token.nest (level : Nat) : Token → Nat
  | .punctuator .openParenthesis | .punctuator .openBracket | .punctuator .openBrace => level + 1
  | .punctuator .closeParenthesis | .punctuator .closeBracket | .punctuator .closeBrace => level - 1
  | _ => level

/-- The number of open brackets behind some tokens. -/
def nesting (level : Nat) (tokens : List Token) : Nat := tokens.foldl Token.nest level

/-- Tokens that close the brackets that they open, and no others. -/
def Balanced (tokens : List Token) : Prop := ∀ level, nesting level tokens = level

/-- A closing bracket that may begin a line. -/
def Token.shuts : Token → Bool
  | .punctuator .closeBrace | .punctuator .closeParenthesis => true
  | _ => false

/-- Brackets are counted token by token. -/
theorem nesting_append (level : Nat) (before behind : List Token) :
    nesting level (before ++ behind) = nesting (nesting level before) behind :=
  List.foldl_append

/-- Behind a closing bracket one bracket less is open. -/
theorem nest_of_shuts {token : Token} (shuts : token.shuts = true) (level : Nat) :
    token.nest level = level - 1 := by
  unfold Token.shuts at shuts
  split at shuts
  · rfl
  · rfl
  · contradiction

/-- Balanced tokens begin with no closing bracket: behind it the rest would have to lead from
no open brackets to none and to one. -/
theorem Balanced.head_opens {first : Token} {others : List Token}
    (balanced : Balanced (first :: others)) : first.shuts = false := by
  cases shuts : first.shuts with
  | false => rfl
  | true =>
    have low := balanced 0
    have high := balanced 1
    rw [nesting, List.foldl_cons, nest_of_shuts shuts] at low high
    exact absurd (low.symm.trans high) (by decide)

/-- A legible token shuts when it begins with a closing brace or parenthesis. -/
theorem Token.Legible.shuts_iff {token : Token} (legible : token.Legible) {first : Char}
    {rest : List Char} (spelled : token.spelling = first :: rest) :
    (first = '\x7d' ∨ first = ')') ↔ token.shuts = true := by
  constructor
  · intro closing
    obtain ⟨start, tail, begun, read⟩ := legible.read delimited_nil
    obtain ⟨rfl, -⟩ := List.cons.inj (begun.symm.trans spelled)
    rcases closing with rfl | rfl
    · obtain rfl := (Prod.mk.inj (Except.ok.inj read)).1
      rfl
    · obtain rfl := (Prod.mk.inj (Except.ok.inj read)).1
      rfl
  · intro shuts
    unfold Token.shuts at shuts
    split at shuts
    · exact .inl (List.cons.inj spelled).1.symm
    · exact .inr (List.cons.inj spelled).1.symm
    · contradiction

/-- The first character of a woven text tells whether its first token shuts. -/
theorem Woven.head_shuts {text : List Char} {tokens : List Token} (woven : Woven text tokens) :
    ∃ solid rest, text = solid :: rest ∧ Text.isBlank solid = false ∧
      ∀ first, tokens.head? = some first →
        ((solid = '\x7d' ∨ solid = ')') ↔ first.shuts = true) := by
  induction woven with
  | token legible =>
    obtain ⟨⟨solid, rest, spelled, notBlank⟩, -⟩ := legible.solid
    refine ⟨solid, rest, spelled, notBlank, fun first inFront => ?_⟩
    obtain rfl := Option.some.inj inFront
    exact legible.shuts_iff spelled
  | @cons token gap below tokens legible spaced apart behind =>
    obtain ⟨⟨solid, rest, spelled, notBlank⟩, -⟩ := legible.solid
    refine ⟨solid, rest ++ (gap ++ below), by rw [spelled, List.cons_append], notBlank,
      fun first inFront => ?_⟩
    obtain rfl := Option.some.inj inFront
    exact legible.shuts_iff spelled
  | comma woven inductionHypothesis =>
    obtain ⟨solid, rest, rfl, notBlank, tells⟩ := inductionHypothesis
    exact ⟨solid, rest ++ [','], rfl, notBlank, tells⟩

/-- No tokens are balanced. -/
theorem balanced_nil : Balanced [] := fun _ => rfl

/-- Balanced tokens behind others are balanced. -/
theorem Balanced.append {before behind : List Token} (one : Balanced before)
    (two : Balanced behind) : Balanced (before ++ behind) := by
  intro level
  rw [nesting_append, one, two]

/-- Balanced tokens of items are balanced together. -/
theorem balanced_flatMap {α : Type} {items : List α} {shown : α → List Token}
    (each : ∀ item ∈ items, Balanced (shown item)) : Balanced (items.flatMap shown) := by
  induction items with
  | nil => exact balanced_nil
  | cons item others inductionHypothesis =>
    rw [List.flatMap_cons]
    exact (each item List.mem_cons_self).append
      (inductionHypothesis fun other inside => each other (List.mem_cons_of_mem _ inside))

/-- Balanced tokens between an opening and a closing bracket are balanced. -/
theorem Balanced.enclosed {tokens : List Token} (balanced : Balanced tokens)
    {opening closing : Token} (pair : Balanced [opening, closing]) :
    Balanced (opening :: (tokens ++ [closing])) := by
  intro level
  have inner : nesting level (opening :: (tokens ++ [closing])) =
      nesting (nesting (opening.nest level) tokens) [closing] := nesting_append _ _ _
  rw [inner, balanced]
  exact pair level

end GraphQLCanon.Lexical

namespace GraphQLCanon.Grammar

open GraphQLCanon.Lexical

/-- The tokens of a value are balanced. -/
theorem balanced_value (value : Value) : Balanced value.tokens := by
  induction value using Value.induct with
  | leaf value noList noObject =>
    cases value with
    | variableRef name | int text | float text | enum text | boolean truth | null | string text
    | blockString text => exact fun _ => rfl
    | list items => exact absurd rfl (noList items)
    | object fields => exact absurd rfl (noObject fields)
  | list items inductionHypothesis =>
    rw [Value.tokens, Value.tokensEach_eq_flatMap]
    have pair : Balanced [.punctuator .openBracket, .punctuator .closeBracket] := fun _ => rfl
    exact (balanced_flatMap inductionHypothesis).enclosed pair
  | object fields inductionHypothesis =>
    have pair : Balanced [.punctuator .openBrace, .punctuator .closeBrace] := fun _ => rfl
    have each : ∀ field ∈ fields, Balanced (namedTokens field) := inductionHypothesis
    rw [Value.tokens, Value.tokensFields_eq_flatMap]
    exact (balanced_flatMap each).enclosed pair

/-- The tokens of a type are balanced. -/
theorem balanced_type (type : TypeReference) : Balanced type.tokens := by
  induction type with
  | named name => exact fun _ => rfl
  | list item inductionHypothesis =>
    have pair : Balanced [.punctuator .openBracket, .punctuator .closeBracket] := fun _ => rfl
    exact inductionHypothesis.enclosed pair
  | nonNull type inductionHypothesis => exact inductionHypothesis.append fun _ => rfl

/-- The tokens of a default are balanced. -/
theorem balanced_default (default : Option Value) : Balanced (defaultTokens default) := by
  cases default with
  | none => exact balanced_nil
  | some value => exact balanced_value value

/-- A name, a type and a default are balanced. -/
theorem balanced_typed (name : String) (type : TypeReference) (default : Option Value) :
    Balanced (.name name :: .punctuator .colon :: (type.tokens ++ defaultTokens default)) :=
  (balanced_type type).append (balanced_default default)

/-- The tokens of parted names are balanced when the sign is no bracket. -/
theorem balanced_separated {sign : Punctuator} (plain : Balanced [.punctuator sign])
    (names : List String) : Balanced (separatedTokens sign names) := by
  induction names with
  | nil => exact balanced_nil
  | cons first others inductionHypothesis =>
    cases others with
    | nil => exact fun _ => rfl
    | cons second others =>
      rw [separatedTokens]
      · have front : Balanced [.name first, .punctuator sign] := fun level => plain level
        exact front.append inductionHypothesis
      · simp

end GraphQLCanon.Grammar
