import GraphQLCanon.Proofs.ParsingTypeSystem

/-!
# Parsing in front of more tokens

A parser looks at the tokens that it takes and at the one behind them. So it takes the same
tokens and yields the same value whatever stands behind its input, unless it takes all of
it: then the next token must not be one that it would go on with. A parser that is followed
by another one, which needs a token, never takes all of its input.
-/

namespace GraphQLCanon.Grammar.Parser

open GraphQLCanon.Lexical

/-- None of some tokens stands in front. -/
def Free (barred : Token → Prop) (tokens : List Token) : Prop :=
  ∀ token, tokens.head? = some token → ¬barred token

/-- Every token: nothing more may follow a parser that takes all of its input. -/
def anyToken : Token → Prop := fun _ => True

/-- No token: anything may follow a parser that takes all of its input. -/
def noToken : Token → Prop := fun _ => False

/-- A parser that leaves an end of its input, and takes the same in front of more tokens. If
it takes all of its input, no barred token may come next. -/
structure Local {α : Type} (barred : Token → Prop) (parser : Parser α) : Prop where
  suffix : ∀ {tokens value rest}, parser tokens = .ok (value, rest) → rest <:+ tokens
  before : ∀ {tokens value rest more}, parser tokens = .ok (value, rest) →
    (rest = [] → Free barred more) → parser (tokens ++ more) = .ok (value, rest ++ more)

/-- A parser that refuses the empty input. -/
def Hungry {α : Type} (parser : Parser α) : Prop := ∀ result, parser [] ≠ .ok result

section Combinators

variable {α β : Type} {barred : Token → Prop} {parser : Parser α} {next : α → Parser β}

/-- More tokens may be barred. -/
theorem Local.mono {wider : Token → Prop} (own : Local barred parser)
    (included : ∀ token, barred token → wider token) : Local wider parser where
  suffix := own.suffix
  before := fun taken free => own.before taken fun nothing token inFront bad =>
    free nothing token inFront (included token bad)

/-- All tokens may be barred. -/
theorem Local.inside (own : Local barred parser) : Local anyToken parser :=
  own.mono fun _ _ => trivial

/-- Where no token is barred, anything may come next. -/
theorem Local.always (own : Local noToken parser) {tokens rest : List Token} {value : α}
    (taken : parser tokens = .ok (value, rest)) (more : List Token) :
    parser (tokens ++ more) = .ok (value, rest ++ more) :=
  own.before taken fun _ _ _ => id

/-- Yielding a value is local. -/
theorem local_pure (value : α) : Local barred (pure value : Parser α) where
  suffix := by
    intro tokens result rest taken
    obtain ⟨-, rfl⟩ := pure_eq_ok.1 taken
    exact List.suffix_refl _
  before := by
    intro tokens result rest more taken _
    obtain ⟨rfl, rfl⟩ := pure_eq_ok.1 taken
    rfl

/-- A refusal is local. -/
theorem local_refuse (cause : Option Token → RefusalCause) :
    Local barred (refuse cause : Parser α) where
  suffix := fun taken => absurd taken refuse_ne_ok
  before := fun taken _ => absurd taken refuse_ne_ok

/-- Two local parsers are local one behind the other. -/
theorem Local.bind (one : Local barred parser) (further : ∀ value, Local barred (next value)) :
    Local barred (parser >>= next) where
  suffix := by
    intro tokens result rest taken
    obtain ⟨value, middle, first, second⟩ := bind_eq_ok.1 taken
    exact ((further value).suffix second).trans (one.suffix first)
  before := by
    intro tokens result rest more taken free
    obtain ⟨value, middle, first, second⟩ := bind_eq_ok.1 taken
    have left : middle = [] → Free barred more := by
      rintro rfl
      exact free (List.suffix_nil.1 ((further value).suffix second))
    exact (bind_of_ok (one.before first left)).trans ((further value).before second free)

/-- What a parser would go on with does not matter in front of one that needs a token. -/
theorem Local.bind_hungry (one : Local anyToken parser)
    (further : ∀ value, Local barred (next value)) (hungry : ∀ value, Hungry (next value)) :
    Local barred (parser >>= next) where
  suffix := by
    intro tokens result rest taken
    obtain ⟨value, middle, first, second⟩ := bind_eq_ok.1 taken
    exact ((further value).suffix second).trans (one.suffix first)
  before := by
    intro tokens result rest more taken free
    obtain ⟨value, middle, first, second⟩ := bind_eq_ok.1 taken
    have left : middle = [] → Free anyToken more := by
      rintro rfl
      exact absurd second (hungry value _)
    exact (bind_of_ok (one.before first left)).trans ((further value).before second free)

/-- A change of what is yielded is local. -/
theorem Local.map (one : Local barred parser) (change : α → β) : Local barred (change <$> parser) :=
  one.bind fun value => local_pure (change value)

/-- A choice between two local parsers is local. -/
theorem local_ite {condition : Prop} [Decidable condition] {other : Parser α}
    (one : Local barred parser) (two : Local barred other) :
    Local barred (if condition then parser else other) := by
  split
  · exact one
  · exact two

/-- A parser that takes one token, whatever stands behind it, is local. -/
theorem local_of_one (single : ∀ {tokens value rest}, parser tokens = .ok (value, rest) →
    ∃ token, tokens = token :: rest ∧ ∀ others, parser (token :: others) = .ok (value, others)) :
    Local barred parser where
  suffix := by
    intro tokens value rest taken
    obtain ⟨token, rfl, -⟩ := single taken
    exact List.suffix_cons token rest
  before := by
    intro tokens value rest more taken _
    obtain ⟨token, rfl, again⟩ := single taken
    exact again _

/-- What a local parser leaves is not longer than its input. -/
theorem Local.length_le (own : Local barred parser) {tokens rest : List Token} {value : α}
    (taken : parser tokens = .ok (value, rest)) : rest.length ≤ tokens.length :=
  (own.suffix taken).length_le

end Combinators

section Basic

variable {barred : Token → Prop} {tokens rest : List Token}

/-- The token in front is the same in front of more tokens, if a token that is looked for
does not come next. -/
theorem head?_append_eq {token : Token} (bar : barred token) {more : List Token}
    (free : tokens = [] → Free barred more) :
    ((tokens ++ more).head? == some token) = (tokens.head? == some token) := by
  cases tokens with
  | nil =>
    have other : more.head? ≠ some token := fun found => free rfl token found bar
    simpa using other
  | cons first others => rfl

/-- Looking for a sign is local where the sign is barred. -/
theorem local_sees {sign : Punctuator} (bar : barred (.punctuator sign)) :
    Local barred (sees sign) where
  suffix := by
    intro tokens value rest taken
    cases taken
    exact List.suffix_refl _
  before := by
    intro tokens value rest more taken free
    cases taken
    rw [sees_eq, head?_append_eq bar free]

/-- Passing a sign is local where the sign is barred. -/
theorem local_skip {sign : Punctuator} (bar : barred (.punctuator sign)) :
    Local barred (skip sign) where
  suffix := by
    intro tokens passed rest taken
    rcases skip_eq_ok taken with ⟨-, rfl⟩ | ⟨-, rfl, -⟩
    · exact List.suffix_cons _ _
    · exact List.suffix_refl _
  before := by
    intro tokens passed rest more taken free
    rcases skip_eq_ok taken with ⟨rfl, rfl⟩ | ⟨rfl, rfl, other⟩
    · exact skip_cons sign _
    · refine skip_of_head_ne fun found => other ?_
      have same := head?_append_eq bar free
      rw [found] at same
      simpa using same.symm

/-- Passing a word is local where the word is barred. -/
theorem local_skipKeyword {word : String} (bar : barred (.name word)) :
    Local barred (skipKeyword word) where
  suffix := by
    intro tokens passed rest taken
    rcases skipKeyword_eq_ok taken with ⟨-, rfl⟩ | ⟨-, rfl, -⟩
    · exact List.suffix_cons _ _
    · exact List.suffix_refl _
  before := by
    intro tokens passed rest more taken free
    rcases skipKeyword_eq_ok taken with ⟨rfl, rfl⟩ | ⟨rfl, rfl, other⟩
    · exact skipKeyword_cons word _
    · refine skipKeyword_of_head_ne fun found => other ?_
      have same := head?_append_eq bar free
      rw [found] at same
      simpa using same.symm

/-- A sign that has to be in front is taken, whatever comes next. -/
theorem local_expect (sign : Punctuator) : Local barred (expect sign) :=
  local_of_one fun taken => ⟨_, expect_eq_ok taken, expect_cons sign⟩

/-- A word that has to be in front is taken, whatever comes next. -/
theorem local_expectKeyword (word : String) : Local barred (expectKeyword word) :=
  local_of_one fun taken => ⟨_, expectKeyword_eq_ok taken, expectKeyword_cons word⟩

/-- A name is taken, whatever comes next. -/
theorem local_name : Local barred name :=
  local_of_one fun taken => ⟨_, name_eq_ok taken, name_cons _⟩

/-- Nothing is free of all tokens but the end. -/
theorem eq_nil_of_free {more : List Token} (free : Free anyToken more) : more = [] := by
  cases more with
  | nil => rfl
  | cons token others => exact absurd trivial (free token rfl)

/-- A parser that is told by the token in front what to do is local inside of a text. -/
theorem local_of_front {α : Type} {parser : Parser α}
    (suffix : ∀ {tokens value rest}, parser tokens = .ok (value, rest) → rest <:+ tokens)
    (front : ∀ {token others value rest}, parser (token :: others) = .ok (value, rest) →
      ∀ more, parser (token :: others ++ more) = .ok (value, rest ++ more)) :
    Local anyToken parser where
  suffix := suffix
  before := by
    intro tokens value rest more taken free
    cases tokens with
    | nil =>
      obtain rfl := List.suffix_nil.1 (suffix taken)
      obtain rfl := eq_nil_of_free (free rfl)
      exact taken
    | cons token others => exact front taken more

/-- Looking at the token in front is local inside of a text. -/
theorem local_peek : Local anyToken peek := by
  refine local_of_front ?_ ?_
  · intro tokens value rest taken
    cases taken
    exact List.suffix_refl _
  · intro token others value rest taken more
    cases taken
    rfl

/-- A name that may be missing is local inside of a text. -/
theorem local_optionalName : Local anyToken optionalName := by
  refine local_of_front ?_ ?_
  · intro tokens found rest taken
    rcases optionalName_eq_ok taken with ⟨text, -, rfl⟩ | ⟨-, rfl⟩
    · exact List.suffix_cons _ _
    · exact List.suffix_refl _
  · intro token others found rest taken more
    cases token <;> cases taken <;> rfl

/-- A description that may be missing is local inside of a text. -/
theorem local_optionalDescription : Local anyToken optionalDescription := by
  refine local_of_front ?_ ?_
  · intro tokens found rest taken
    rcases optionalDescription_eq_ok taken with ⟨value, -, rfl | rfl⟩ | ⟨-, rfl⟩
    · exact List.suffix_cons _ _
    · exact List.suffix_cons _ _
    · exact List.suffix_refl _
  · intro token others found rest taken more
    cases token <;> cases taken <;> rfl

end Basic

section Repetitions

variable {α : Type} {barred : Token → Prop} {item : Parser α}

/-- A repetition with a bound on its items is local when the bound of more tokens allows
for the same items. -/
theorem local_bound {parsers : Nat → Parser (List α)}
    (suffix : ∀ {tokens items rest}, parsers (tokens.length + 1) tokens = .ok (items, rest) →
      rest <:+ tokens)
    (before : ∀ {tokens items rest more}, parsers (tokens.length + 1) tokens = .ok (items, rest) →
      (rest = [] → Free barred more) →
      parsers ((tokens ++ more).length + 1) (tokens ++ more) = .ok (items, rest ++ more)) :
    Local barred (bound >>= parsers) where
  suffix := by
    intro tokens items rest taken
    rw [bind_of_ok (bound_eq tokens)] at taken
    exact suffix taken
  before := by
    intro tokens items rest more taken free
    rw [bind_of_ok (bound_eq tokens)] at taken
    exact (bind_of_ok (bound_eq _)).trans (before taken free)

/-- A closing sign is needed behind items. -/
theorem hungry_itemsUntil (own : Local anyToken item) (closing : Punctuator) (fuel : Nat) :
    Hungry (itemsUntil closing item fuel) := by
  intro result taken
  induction fuel generalizing result with
  | zero => cases taken
  | succ fuel inductionHypothesis =>
    unfold itemsUntil at taken
    have looked : skip closing [] = .ok (false, []) := skip_of_head_ne (by simp)
    rw [bind_of_ok looked] at taken
    obtain ⟨first, middle, one, further⟩ := bind_eq_ok.1 taken
    obtain ⟨others, last, more, -⟩ := bind_eq_ok.1 further
    obtain rfl := List.suffix_nil.1 (own.suffix one)
    exact inductionHypothesis _ more

/-- Items up to a closing sign are the same in front of more tokens, and under a greater
bound. -/
theorem itemsUntil_before (own : Local anyToken item) {closing : Punctuator} {fuel larger : Nat}
    (enough : fuel ≤ larger) {tokens rest : List Token} {items : List α}
    (taken : itemsUntil closing item fuel tokens = .ok (items, rest)) :
    rest <:+ tokens ∧ ∀ more, itemsUntil closing item larger (tokens ++ more) =
      .ok (items, rest ++ more) := by
  have closed (larger : Nat) (others : List Token) :
      itemsUntil closing item larger (.punctuator closing :: others) = .ok ([], others) := by
    cases larger with
    | zero => exact bind_of_ok (expect_cons closing others)
    | succ larger => exact bind_of_ok (skip_cons closing others)
  induction fuel generalizing larger tokens items with
  | zero =>
    obtain ⟨_, middle, shut, done⟩ := bind_eq_ok.1 taken
    obtain ⟨rfl, rfl⟩ := pure_eq_ok.1 done
    rw [expect_eq_ok shut]
    exact ⟨List.suffix_cons _ _, fun more => closed larger _⟩
  | succ fuel inductionHypothesis =>
    obtain ⟨larger, rfl⟩ := Nat.exists_eq_add_of_le' (Nat.le_trans (Nat.succ_pos fuel) enough)
    unfold itemsUntil at taken
    obtain ⟨passed, middle, looked, further⟩ := bind_eq_ok.1 taken
    rcases skip_eq_ok looked with ⟨rfl, rfl⟩ | ⟨rfl, rfl, other⟩
    · obtain ⟨rfl, rfl⟩ := pure_eq_ok.1 further
      exact ⟨List.suffix_cons _ _, fun more => closed (larger + 1) _⟩
    · obtain ⟨first, middle, one, further⟩ := bind_eq_ok.1 further
      obtain ⟨others, last, several, done⟩ := bind_eq_ok.1 further
      obtain ⟨rfl, rfl⟩ := pure_eq_ok.1 done
      obtain ⟨suffix, again⟩ := inductionHypothesis (Nat.le_of_succ_le_succ enough) several
      -- A closing sign stands behind the item, so the item does not take all tokens.
      have some? : middle ≠ [] := by
        rintro rfl
        exact hungry_itemsUntil own closing fuel _ several
      have still (more : List Token) : (tokens ++ more).head? ≠ some (.punctuator closing) := by
        cases tokens with
        | nil => exact absurd (List.suffix_nil.1 (own.suffix one)) some?
        | cons token behind => exact other
      refine ⟨suffix.trans (own.suffix one), fun more => ?_⟩
      unfold itemsUntil
      refine (bind_of_ok (skip_of_head_ne (still more))).trans ?_
      refine (bind_of_ok (own.before one fun nothing => absurd nothing some?)).trans ?_
      exact bind_of_ok (again more)

/-- Items up to a closing sign are local, whatever comes next. -/
theorem local_itemsUntil (own : Local anyToken item) (closing : Punctuator) :
    Local barred (bound >>= itemsUntil closing item) :=
  local_bound (fun taken => (itemsUntil_before own (Nat.le_refl _) taken).1)
    fun taken _ => (itemsUntil_before own (by simp) taken).2 _

/-- Items between two signs are local, whatever comes next. -/
theorem local_enclosed (own : Local anyToken item) (opening closing : Punctuator) :
    Local barred (enclosed opening closing item) :=
  (local_expect opening).bind fun _ => local_itemsUntil own closing

/-- One or more items between two signs are local, whatever comes next. -/
theorem local_enclosedSome (own : Local anyToken item) (opening closing : Punctuator) :
    Local barred (enclosedSome opening closing item) := by
  have behind (first : α) : (do
      let others ← itemsUntil closing item (← bound)
      return first :: others) =
        (bound >>= itemsUntil closing item) >>= fun others => pure (first :: others) :=
    (bind_assoc ..).symm
  refine (local_expect opening).bind fun _ => own.bind_hungry (fun first => ?_) fun first => ?_
  · rw [behind]
    exact (local_itemsUntil own closing).bind fun others => local_pure _
  · intro result taken
    rw [behind] at taken
    obtain ⟨others, middle, several, -⟩ := bind_eq_ok.1 taken
    rw [bind_of_ok (bound_eq [])] at several
    exact hungry_itemsUntil own closing _ _ several

/-- Items between two signs, or nothing, are local where the opening sign is barred. -/
theorem local_optionallyEnclosed (own : Local anyToken item) {opening : Punctuator}
    (closing : Punctuator) (bar : barred (.punctuator opening)) :
    Local barred (optionallyEnclosed opening closing item) := by
  exact (local_sees bar).bind fun seen =>
    local_ite (local_enclosedSome own opening closing) (local_pure [])

/-- A parser that takes at least one token. -/
def Consumes (parser : Parser α) : Prop :=
  ∀ {tokens value rest}, parser tokens = .ok (value, rest) → rest.length < tokens.length

/-- Items with a separating sign between them are the same in front of more tokens that do
not begin with the sign, under bounds that allow for all tokens. -/
theorem itemsSeparated_before (own : Local barred item) (consumes : Consumes item)
    {separator : Punctuator} (bar : barred (.punctuator separator)) {fuel : Nat}
    {tokens rest : List Token} {items : List α} (enough : tokens.length ≤ fuel)
    (taken : itemsSeparated separator item fuel tokens = .ok (items, rest)) :
    rest <:+ tokens ∧ ∀ larger more, tokens.length + more.length ≤ larger →
      (rest = [] → Free barred more) →
        itemsSeparated separator item larger (tokens ++ more) = .ok (items, rest ++ more) := by
  induction fuel generalizing tokens items with
  | zero =>
    obtain ⟨only, middle, one, -⟩ := bind_eq_ok.1 taken
    exact absurd (consumes one) (by omega)
  | succ fuel inductionHypothesis =>
    unfold itemsSeparated at taken
    obtain ⟨first, middle, one, further⟩ := bind_eq_ok.1 taken
    obtain ⟨passed, behind, looked, onward⟩ := bind_eq_ok.1 further
    have shorter := consumes one
    rcases skip_eq_ok looked with ⟨rfl, rfl⟩ | ⟨rfl, rfl, -⟩
    · obtain ⟨others, last, several, done⟩ := bind_eq_ok.1 onward
      obtain ⟨rfl, rfl⟩ := pure_eq_ok.1 done
      rw [List.length_cons] at shorter
      obtain ⟨suffix, again⟩ := inductionHypothesis (by omega) several
      refine ⟨suffix.trans ((List.suffix_cons _ _).trans (own.suffix one)), ?_⟩
      intro larger more allowed free
      obtain ⟨larger, rfl⟩ : ∃ fewer, larger = fewer + 1 := ⟨larger - 1, by omega⟩
      unfold itemsSeparated
      refine (bind_of_ok (own.before one (by simp))).trans ?_
      refine (bind_of_ok (skip_cons separator _)).trans ?_
      exact bind_of_ok (again larger more (by omega) free)
    · obtain ⟨rfl, rfl⟩ := pure_eq_ok.1 onward
      refine ⟨own.suffix one, ?_⟩
      intro larger more allowed free
      obtain ⟨larger, rfl⟩ : ∃ fewer, larger = fewer + 1 := ⟨larger - 1, by omega⟩
      unfold itemsSeparated
      refine (bind_of_ok (own.before one free)).trans ?_
      exact bind_of_ok ((local_skip bar).before looked free)

/-- Items with a separating sign between them, and perhaps in front, are local where the
sign is barred. -/
theorem local_separated (own : Local barred item) (consumes : Consumes item)
    {separator : Punctuator} (bar : barred (.punctuator separator)) :
    Local barred (separated separator item) := by
  refine (local_skip bar).bind fun _ => local_bound ?_ ?_
  · intro tokens items rest taken
    exact (itemsSeparated_before own consumes bar (Nat.le_succ _) taken).1
  · intro tokens items rest more taken free
    exact (itemsSeparated_before own consumes bar (Nat.le_succ _) taken).2 _ more (by simp) free

/-- Items that a sign opens are the same in front of more tokens that do not begin with the
sign, under bounds that allow for all tokens. -/
theorem itemsWhile_before (own : Local barred item) (consumes : Consumes item)
    {opening : Punctuator} (bar : barred (.punctuator opening)) {fuel : Nat}
    {tokens rest : List Token} {items : List α} (enough : tokens.length < fuel)
    (taken : itemsWhile opening item fuel tokens = .ok (items, rest)) :
    rest <:+ tokens ∧ ∀ larger more, tokens.length + more.length < larger →
      (rest = [] → Free barred more) →
        itemsWhile opening item larger (tokens ++ more) = .ok (items, rest ++ more) := by
  induction fuel generalizing tokens items with
  | zero => omega
  | succ fuel inductionHypothesis =>
    unfold itemsWhile at taken
    obtain ⟨seen, behind, looked, onward⟩ := bind_eq_ok.1 taken
    have same : tokens = behind := by
      cases looked
      rfl
    subst same
    by_cases opened : seen = true
    · rw [if_pos opened] at onward
      obtain ⟨first, middle, one, further⟩ := bind_eq_ok.1 onward
      obtain ⟨others, last, several, done⟩ := bind_eq_ok.1 further
      obtain ⟨rfl, rfl⟩ := pure_eq_ok.1 done
      have shorter := consumes one
      obtain ⟨suffix, again⟩ := inductionHypothesis (by omega) several
      refine ⟨suffix.trans (own.suffix one), ?_⟩
      intro larger more allowed free
      obtain ⟨larger, rfl⟩ : ∃ fewer, larger = fewer + 1 := ⟨larger - 1, by omega⟩
      have left : middle = [] → Free barred more := by
        rintro rfl
        exact free (List.suffix_nil.1 suffix)
      have nonempty : tokens ≠ [] := by
        rintro rfl
        simp at shorter
      unfold itemsWhile
      refine (bind_of_ok ((local_sees bar).before looked fun nothing =>
        absurd nothing nonempty)).trans ?_
      rw [if_pos opened]
      refine (bind_of_ok (own.before one left)).trans ?_
      exact bind_of_ok (again larger more (by omega) free)
    · rw [if_neg opened] at onward
      obtain ⟨rfl, rfl⟩ := pure_eq_ok.1 onward
      refine ⟨List.suffix_refl _, ?_⟩
      intro larger more allowed free
      obtain ⟨larger, rfl⟩ : ∃ fewer, larger = fewer + 1 := ⟨larger - 1, by omega⟩
      unfold itemsWhile
      refine (bind_of_ok ((local_sees bar).before looked free)).trans ?_
      rw [if_neg opened]
      rfl

/-- Items that a sign opens are local where the sign is barred. -/
theorem local_itemsWhile (own : Local barred item) (consumes : Consumes item)
    {opening : Punctuator} (bar : barred (.punctuator opening)) :
    Local barred (bound >>= itemsWhile opening item) := by
  refine local_bound ?_ ?_
  · intro tokens items rest taken
    exact (itemsWhile_before own consumes bar (Nat.lt_succ_self _) taken).1
  · intro tokens items rest more taken free
    exact (itemsWhile_before own consumes bar (Nat.lt_succ_self _) taken).2 _ more (by simp) free

end Repetitions

end GraphQLCanon.Grammar.Parser
