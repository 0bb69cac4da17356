import GraphQLCanon.Proofs.Parsing
import GraphQLCanon.Proofs.TokenForm

/-!
# Token forms and repetition

A parser is judged by the token form of what it yields, in two ways. It is sound
when the tokens that it took are that form, up to the form of descriptions and
separators that may be left out. It takes a form back when it yields the value in
front of all tokens that do not prolong it. Both carry over from an item to
repetitions of it.
-/

namespace GraphQLCanon.Grammar.Parser

open GraphQLCanon.Lexical

/-- Tokens that write the same as others, with the given descriptions and with the given
places where a separator may lead. A description may be a block string where the others
have a quoted one, and a separator may stand where the others have none. -/
inductive Respelled : List String → List Punctuator → List Token → List Token → Prop
  | nil : Respelled [] [] [] []
  | same {descriptions : List String} {signs : List Punctuator} {source shown : List Token}
    (token : Token) (rest : Respelled descriptions signs source shown) :
    Respelled descriptions signs (token :: source) (token :: shown)
  | quoted {descriptions : List String} {signs : List Punctuator} {source shown : List Token}
    (value : String) (rest : Respelled descriptions signs source shown) :
    Respelled (value :: descriptions) signs (.string value :: source) (.string value :: shown)
  | block {descriptions : List String} {signs : List Punctuator} {source shown : List Token}
    (value : String) (rest : Respelled descriptions signs source shown) :
    Respelled (value :: descriptions) signs (.blockString value :: source) (.string value :: shown)
  | led {descriptions : List String} {signs : List Punctuator} {source shown : List Token}
    (sign : Punctuator) (rest : Respelled descriptions signs source shown) :
    Respelled descriptions (sign :: signs) (.punctuator sign :: source) shown
  | unled {descriptions : List String} {signs : List Punctuator} {source shown : List Token}
    (sign : Punctuator) (rest : Respelled descriptions signs source shown) :
    Respelled descriptions (sign :: signs) source shown

/-- Parts that write the same do so together. -/
theorem Respelled.append {descriptions others : List String} {signs further : List Punctuator}
    {source shown other otherShown : List Token}
    (left : Respelled descriptions signs source shown)
    (right : Respelled others further other otherShown) :
    Respelled (descriptions ++ others) (signs ++ further) (source ++ other)
      (shown ++ otherShown) := by
  induction left with
  | nil => exact right
  | same token _ inductionHypothesis => exact .same token inductionHypothesis
  | quoted value _ inductionHypothesis => exact .quoted value inductionHypothesis
  | block value _ inductionHypothesis => exact .block value inductionHypothesis
  | led sign _ inductionHypothesis => exact .led sign inductionHypothesis
  | unled sign _ inductionHypothesis => exact .unled sign inductionHypothesis

/-- The tokens between an input and what is left of it write a token form, with the
descriptions and the places for leading separators that are given. -/
def Takes (tokens rest shown : List Token) (descriptions : List String := [])
    (signs : List Punctuator := []) : Prop :=
  ∃ front, tokens = front ++ rest ∧ Respelled descriptions signs front shown

/-- Where nothing is taken, nothing is written. -/
theorem Takes.none (tokens : List Token) : Takes tokens tokens [] := ⟨[], rfl, .nil⟩

/-- A token that is taken writes itself. -/
theorem Takes.one (token : Token) (rest : List Token) : Takes (token :: rest) rest [token] :=
  ⟨[token], rfl, .same token .nil⟩

section Sequences

variable {tokens middle rest : List Token} {descriptions others : List String}
  {signs further : List Punctuator}

/-- What is taken first stands in front of what is taken then. -/
theorem Takes.trans {first second : List Token} (left : Takes tokens middle first descriptions signs)
    (right : Takes middle rest second others further) :
    Takes tokens rest (first ++ second) (descriptions ++ others) (signs ++ further) := by
  obtain ⟨front, rfl, leftShown⟩ := left
  obtain ⟨back, rfl, rightShown⟩ := right
  exact ⟨front ++ back, by rw [List.append_assoc], leftShown.append rightShown⟩

/-- A token that is taken stands in front of what is taken then. -/
theorem Takes.cons {shown : List Token} (token : Token)
    (behind : Takes middle rest shown descriptions signs) :
    Takes (token :: middle) rest (token :: shown) descriptions signs :=
  (Takes.one token middle).trans behind

/-- What is taken exactly adds neither descriptions nor leading separators. -/
theorem Takes.trans_plain {first second : List Token}
    (left : Takes tokens middle first descriptions signs) (right : Takes middle rest second) :
    Takes tokens rest (first ++ second) descriptions signs := by
  simpa only [List.append_nil] using left.trans right

/-- Items without descriptions have none together. -/
theorem Takes.plain {α : Type} {items : List α} {shown : List Token}
    (taken : Takes tokens rest shown (items.flatMap fun _ => []) signs) :
    Takes tokens rest shown [] signs := by
  have none : (items.flatMap fun _ => []) = ([] : List String) := by simp
  rwa [none] at taken

end Sequences

/-- A parser yields valid values, and takes the tokens that write them with their
descriptions. -/
def Sound {α : Type} (parser : Parser α) (shown : α → List Token) (valid : α → Prop)
    (descriptions : α → List String := fun _ => [])
    (signs : α → List Punctuator := fun _ => []) : Prop :=
  ∀ {tokens : List Token} {value : α} {rest : List Token},
    parser tokens = .ok (value, rest) →
      valid value ∧ Takes tokens rest (shown value) (descriptions value) (signs value)

/-- None of some tokens stands in front. -/
def Clear (barred tokens : List Token) : Prop :=
  ∀ token ∈ barred, tokens.head? ≠ some token

/-- What is clear of some tokens is clear of fewer. -/
theorem Clear.of_subset {fewer more tokens : List Token} (clear : Clear more tokens)
    (included : fewer ⊆ more) : Clear fewer tokens :=
  fun token inside => clear token (included inside)

/-- Tokens that may be left out, and have one beginning, stay clear of all others. -/
theorem Clear.append {barred shown rest : List Token} {first : Token}
    (begun : shown = [] ∨ shown.head? = some first) (free : first ∉ barred)
    (clear : Clear barred rest) : Clear barred (shown ++ rest) := by
  rcases begun with rfl | begun
  · exact clear
  · intro token inside found
    rw [List.head?_append, begun] at found
    cases found
    exact free inside

/-- A parser takes tokens back as a value, in front of all tokens that do not begin
with one that would prolong the value. -/
def Returns {α : Type} (parser : Parser α) (shown : List Token) (value : α)
    (barred : List Token) : Prop :=
  ∀ rest, Clear barred rest → parser (shown ++ rest) = .ok (value, rest)

variable {α : Type} {item : Parser α} {shown : α → List Token}

section Soundness

variable {valid : α → Prop} {descriptions : α → List String} {tokens rest : List Token}
  {items : List α}

/-- Items up to a closing sign are written one after another, and the sign behind
them. -/
theorem itemsUntil_sound (sound : Sound item shown valid descriptions) {closing : Punctuator} {fuel : Nat}
    (taken : itemsUntil closing item fuel tokens = .ok (items, rest)) :
    (∀ value ∈ items, valid value) ∧
      Takes tokens rest (items.flatMap shown ++ [.punctuator closing])
        (items.flatMap descriptions) := by
  induction fuel generalizing tokens items with
  | zero =>
    unfold itemsUntil at taken
    obtain ⟨_, middle, closed, done⟩ := bind_eq_ok.1 taken
    obtain ⟨rfl, rfl⟩ := pure_eq_ok.1 done
    rw [expect_eq_ok closed]
    exact ⟨by simp, Takes.one _ _⟩
  | succ fuel inductionHypothesis =>
    unfold itemsUntil at taken
    obtain ⟨closed, middle, looked, further⟩ := bind_eq_ok.1 taken
    rcases skip_eq_ok looked with ⟨rfl, rfl⟩ | ⟨rfl, rfl, -⟩
    · obtain ⟨rfl, rfl⟩ := pure_eq_ok.1 further
      exact ⟨by simp, Takes.one _ _⟩
    · obtain ⟨first, behind, one, further⟩ := bind_eq_ok.1 further
      obtain ⟨others, last, more, done⟩ := bind_eq_ok.1 further
      obtain ⟨rfl, rfl⟩ := pure_eq_ok.1 done
      obtain ⟨firstValid, firstTaken⟩ := sound one
      obtain ⟨othersValid, othersTaken⟩ := inductionHypothesis more
      refine ⟨by simpa using ⟨firstValid, othersValid⟩, ?_⟩
      rw [List.flatMap_cons, List.append_assoc]
      exact firstTaken.trans othersTaken

/-- Items between two signs are written between them. -/
theorem enclosed_sound (sound : Sound item shown valid descriptions) {opening closing : Punctuator}
    (taken : enclosed opening closing item tokens = .ok (items, rest)) :
    (∀ value ∈ items, valid value) ∧
      Takes tokens rest
        (.punctuator opening :: (items.flatMap shown ++ [.punctuator closing]))
        (items.flatMap descriptions) := by
  unfold enclosed at taken
  obtain ⟨_, middle, opened, further⟩ := bind_eq_ok.1 taken
  rw [bind_of_ok (bound_eq middle)] at further
  obtain ⟨itemsValid, itemsTaken⟩ := itemsUntil_sound sound further
  rw [expect_eq_ok opened]
  exact ⟨itemsValid, itemsTaken.cons _⟩

/-- One or more items between two signs are written between them. -/
theorem enclosedSome_sound (sound : Sound item shown valid descriptions) {opening closing : Punctuator}
    (taken : enclosedSome opening closing item tokens = .ok (items, rest)) :
    items ≠ [] ∧ (∀ value ∈ items, valid value) ∧
      Takes tokens rest (enclosedTokens opening closing shown items)
        (items.flatMap descriptions) := by
  unfold enclosedSome at taken
  obtain ⟨_, middle, opened, further⟩ := bind_eq_ok.1 taken
  obtain ⟨first, behind, one, further⟩ := bind_eq_ok.1 further
  rw [bind_of_ok (bound_eq behind)] at further
  obtain ⟨others, last, more, done⟩ := bind_eq_ok.1 further
  obtain ⟨rfl, rfl⟩ := pure_eq_ok.1 done
  obtain ⟨firstValid, firstTaken⟩ := sound one
  obtain ⟨othersValid, othersTaken⟩ := itemsUntil_sound sound more
  refine ⟨by simp, by simpa using ⟨firstValid, othersValid⟩, ?_⟩
  rw [expect_eq_ok opened]
  simpa [enclosedTokens] using (firstTaken.trans othersTaken).cons (.punctuator opening)

/-- Items that may be left out are written between two signs, or not at all. -/
theorem optionallyEnclosed_sound (sound : Sound item shown valid descriptions)
    (opening closing : Punctuator) :
    Sound (optionallyEnclosed opening closing item) (enclosedTokens opening closing shown)
      (fun items => ∀ value ∈ items, valid value) (·.flatMap descriptions) := by
  intro tokens items rest taken
  unfold optionallyEnclosed at taken
  rw [bind_of_ok (sees_eq opening tokens)] at taken
  split at taken
  · exact (enclosedSome_sound sound taken).2
  · obtain ⟨rfl, rfl⟩ := pure_eq_ok.1 taken
    exact ⟨by simp, Takes.none _⟩

/-- Names with a sign between them are written so. -/
theorem itemsSeparated_sound {name : Parser String} {valid : String → Prop}
    (sound : Sound name (fun text => [.name text]) valid) {separator : Punctuator}
    {fuel : Nat} {names : List String}
    (taken : itemsSeparated separator name fuel tokens = .ok (names, rest)) :
    names ≠ [] ∧ (∀ text ∈ names, valid text) ∧
      Takes tokens rest (separatedTokens separator names) := by
  induction fuel generalizing tokens names with
  | zero =>
    unfold itemsSeparated at taken
    obtain ⟨only, middle, one, done⟩ := bind_eq_ok.1 taken
    obtain ⟨rfl, rfl⟩ := pure_eq_ok.1 done
    obtain ⟨onlyValid, onlyTaken⟩ := sound one
    exact ⟨by simp, by simpa using onlyValid, onlyTaken⟩
  | succ fuel inductionHypothesis =>
    unfold itemsSeparated at taken
    obtain ⟨first, middle, one, further⟩ := bind_eq_ok.1 taken
    obtain ⟨firstValid, firstTaken⟩ := sound one
    obtain ⟨passed, behind, looked, onward⟩ := bind_eq_ok.1 further
    rcases skip_eq_ok looked with ⟨rfl, rfl⟩ | ⟨rfl, rfl, -⟩
    · obtain ⟨others, last, more, done⟩ := bind_eq_ok.1 onward
      obtain ⟨rfl, rfl⟩ := pure_eq_ok.1 done
      obtain ⟨some, othersValid, othersTaken⟩ := inductionHypothesis more
      refine ⟨by simp, by simpa using ⟨firstValid, othersValid⟩, ?_⟩
      obtain ⟨second, more, rfl⟩ := List.exists_cons_of_ne_nil some
      exact firstTaken.trans (othersTaken.cons _)
    · obtain ⟨rfl, rfl⟩ := pure_eq_ok.1 onward
      exact ⟨by simp, by simpa using firstValid, firstTaken⟩

/-- Names with a sign between them, and perhaps in front, write the same as with the
signs between them only. -/
theorem separated_sound {name : Parser String} {valid : String → Prop}
    (sound : Sound name (fun text => [.name text]) valid) {separator : Punctuator}
    {names : List String}
    (taken : separated separator name tokens = .ok (names, rest)) :
    names ≠ [] ∧ (∀ text ∈ names, valid text) ∧
      Takes tokens rest (separatedTokens separator names) [] [separator] := by
  unfold separated at taken
  obtain ⟨passed, middle, looked, further⟩ := bind_eq_ok.1 taken
  rw [bind_of_ok (bound_eq middle)] at further
  obtain ⟨some, namesValid, front, rfl, written⟩ := itemsSeparated_sound sound further
  refine ⟨some, namesValid, ?_⟩
  rcases skip_eq_ok looked with ⟨-, rfl⟩ | ⟨-, rfl, -⟩
  · exact ⟨.punctuator separator :: front, rfl, .led separator written⟩
  · exact ⟨front, rfl, .unled separator written⟩

/-- Items behind their opening signs are written one after another. -/
theorem itemsWhile_sound (sound : Sound item shown valid descriptions) {opening : Punctuator} {fuel : Nat}
    (taken : itemsWhile opening item fuel tokens = .ok (items, rest)) :
    (∀ value ∈ items, valid value) ∧
      Takes tokens rest (items.flatMap shown) (items.flatMap descriptions) := by
  induction fuel generalizing tokens items with
  | zero =>
    obtain ⟨rfl, rfl⟩ := pure_eq_ok.1 taken
    exact ⟨by simp, Takes.none _⟩
  | succ fuel inductionHypothesis =>
    unfold itemsWhile at taken
    rw [bind_of_ok (sees_eq opening tokens)] at taken
    split at taken
    · obtain ⟨first, behind, one, further⟩ := bind_eq_ok.1 taken
      obtain ⟨others, last, more, done⟩ := bind_eq_ok.1 further
      obtain ⟨rfl, rfl⟩ := pure_eq_ok.1 done
      obtain ⟨firstValid, firstTaken⟩ := sound one
      obtain ⟨othersValid, othersTaken⟩ := inductionHypothesis more
      exact ⟨by simpa using ⟨firstValid, othersValid⟩, firstTaken.trans othersTaken⟩
    · obtain ⟨rfl, rfl⟩ := pure_eq_ok.1 taken
      exact ⟨by simp, Takes.none _⟩

end Soundness

section Completeness

/-- Items that can be taken back one after another before a closing sign: none begins
with that sign, or with a token that would prolong the item before it. -/
structure Apart (item : Parser α) (shown : α → List Token) (closing : Punctuator)
    (barred : List Token) (items : List α) : Prop where
  unbarred : .punctuator closing ∉ barred
  returned : ∀ value ∈ items, Returns item (shown value) value barred
  begun : ∀ value ∈ items, ∀ rest, Clear (.punctuator closing :: barred) (shown value ++ rest)

variable {barred : List Token} {items : List α} {opening closing : Punctuator}

/-- The items behind the first one stand apart, too. -/
theorem Apart.tail {first : α} (apart : Apart item shown closing barred (first :: items)) :
    Apart item shown closing barred items where
  unbarred := apart.unbarred
  returned := fun value inside => apart.returned value (List.mem_cons_of_mem _ inside)
  begun := fun value inside => apart.begun value (List.mem_cons_of_mem _ inside)

/-- In front of items and the sign that closes them, an item is not prolonged. -/
theorem Apart.clear (apart : Apart item shown closing barred items) (rest : List Token) :
    Clear barred (items.flatMap shown ++ .punctuator closing :: rest) := by
  cases items with
  | nil =>
    intro token inside found
    cases found
    exact apart.unbarred inside
  | cons first others =>
    intro token inside
    have begun := apart.begun first List.mem_cons_self
      (others.flatMap shown ++ .punctuator closing :: rest) token (List.mem_cons_of_mem _ inside)
    simpa using begun

/-- Items that are a token at least are no more than their tokens. -/
theorem length_le_flatMap (written : ∀ value ∈ items, shown value ≠ []) :
    items.length ≤ (items.flatMap shown).length := by
  induction items with
  | nil => simp
  | cons first others inductionHypothesis =>
    have further := inductionHypothesis fun value inside =>
      written value (List.mem_cons_of_mem _ inside)
    have one := List.length_pos_iff.2 (written first List.mem_cons_self)
    simp only [List.flatMap_cons, List.length_append, List.length_cons]
    omega

/-- Items that stand apart are no more than their tokens. -/
theorem Apart.length_le (apart : Apart item shown closing barred items) :
    items.length ≤ (items.flatMap shown).length := by
  apply length_le_flatMap
  intro value inside nothing
  have begun := apart.begun value inside [.punctuator closing] _ List.mem_cons_self
  simp [nothing] at begun

/-- Items that a sign closes are taken back. -/
theorem itemsUntil_returns (apart : Apart item shown closing barred items) {fuel : Nat}
    (enough : items.length ≤ fuel) (rest : List Token) :
    itemsUntil closing item fuel (items.flatMap shown ++ .punctuator closing :: rest) =
      .ok (items, rest) := by
  induction items generalizing fuel with
  | nil =>
    cases fuel with
    | zero =>
      unfold itemsUntil
      exact bind_of_ok (expect_cons closing rest)
    | succ fuel =>
      unfold itemsUntil
      exact bind_of_ok (skip_cons closing rest)
  | cons first others inductionHypothesis =>
    cases fuel with
    | zero => simp at enough
    | succ fuel =>
      have further := inductionHypothesis apart.tail (Nat.le_of_succ_le_succ enough)
      have one := apart.returned first List.mem_cons_self _ (apart.tail.clear rest)
      have unclosed := apart.begun first List.mem_cons_self
        (others.flatMap shown ++ .punctuator closing :: rest) _ List.mem_cons_self
      unfold itemsUntil
      rw [List.flatMap_cons, List.append_assoc, bind_of_ok (skip_of_head_ne unclosed)]
      refine (bind_of_ok one).trans ?_
      exact bind_of_ok further

/-- Items between two signs are taken back. -/
theorem enclosed_returns (apart : Apart item shown closing barred items) :
    Returns (enclosed opening closing item)
      (.punctuator opening :: (items.flatMap shown ++ [.punctuator closing])) items [] := by
  intro rest _
  have enough := apart.length_le
  unfold enclosed
  rw [List.cons_append, bind_of_ok (expect_cons opening _), bind_of_ok (bound_eq _),
    List.append_assoc]
  refine itemsUntil_returns apart ?_ rest
  simp only [List.length_append]
  omega

/-- One or more items between two signs are taken back. -/
theorem enclosedSome_returns (apart : Apart item shown closing barred items)
    (nonempty : items ≠ []) :
    Returns (enclosedSome opening closing item) (enclosedTokens opening closing shown items) items
      [] := by
  intro rest _
  obtain ⟨first, others, rfl⟩ := List.exists_cons_of_ne_nil nonempty
  have enough := apart.tail.length_le
  have one := apart.returned first List.mem_cons_self _ (apart.tail.clear rest)
  have tokens_eq : enclosedTokens opening closing shown (first :: others) ++ rest =
      .punctuator opening ::
        (shown first ++ (others.flatMap shown ++ .punctuator closing :: rest)) := by
    simp [enclosedTokens]
  unfold enclosedSome
  rw [tokens_eq, bind_of_ok (expect_cons opening _), bind_of_ok one, bind_of_ok (bound_eq _)]
  refine bind_of_ok (itemsUntil_returns apart.tail ?_ rest)
  simp only [List.length_append]
  omega

/-- Items that may be left out are taken back, in front of anything but a sign that
opens them. -/
theorem optionallyEnclosed_returns (apart : Apart item shown closing barred items) :
    Returns (optionallyEnclosed opening closing item) (enclosedTokens opening closing shown items)
      items [.punctuator opening] := by
  intro rest clear
  unfold optionallyEnclosed
  rw [bind_of_ok (sees_eq opening _)]
  cases items with
  | nil =>
    have shut := clear _ List.mem_cons_self
    simp [enclosedTokens, shut, pure_eq]
  | cons first others =>
    rw [if_pos (by simp [enclosedTokens])]
    exact enclosedSome_returns apart (by simp) rest (by simp [Clear])

/-- Names with a sign between them are taken back. -/
theorem itemsSeparated_returns {name : Parser String} {separator : Punctuator} {fuel : Nat}
    {names : List String} (returned : ∀ text ∈ names, Returns name [.name text] text [])
    (nonempty : names ≠ []) (enough : names.length ≤ fuel + 1) :
    Returns (itemsSeparated separator name fuel) (separatedTokens separator names) names
      [.punctuator separator] := by
  intro rest clear
  induction names generalizing fuel with
  | nil => exact absurd rfl nonempty
  | cons first others inductionHypothesis =>
    have one (behind : List Token) : name (.name first :: behind) = .ok (first, behind) :=
      returned first List.mem_cons_self behind (by simp [Clear])
    cases others with
    | nil =>
      cases fuel with
      | zero =>
        unfold itemsSeparated
        exact bind_of_ok (one rest)
      | succ fuel =>
        have alone := skip_of_head_ne (clear _ List.mem_cons_self)
        unfold itemsSeparated
        refine (bind_of_ok (one rest)).trans ?_
        exact bind_of_ok alone
    | cons second others =>
      cases fuel with
      | zero => simp at enough
      | succ fuel =>
        have further := inductionHypothesis
          (fun text inside => returned text (List.mem_cons_of_mem _ inside)) (by simp)
          (Nat.le_of_succ_le_succ enough)
        unfold itemsSeparated
        refine (bind_of_ok (one _)).trans ?_
        refine (bind_of_ok (skip_cons separator _)).trans ?_
        exact bind_of_ok further

/-- Every name with a sign between it and the next is a token at least. -/
theorem length_le_separatedTokens (separator : Punctuator) (names : List String) :
    names.length ≤ (separatedTokens separator names).length := by
  fun_induction separatedTokens separator names <;> grind

/-- Names with a sign between them and none in front are taken back. -/
theorem separated_returns {name : Parser String} {separator : Punctuator} {names : List String}
    (returned : ∀ text ∈ names, Returns name [.name text] text []) (nonempty : names ≠ []) :
    Returns (separated separator name) (separatedTokens separator names) names
      [.punctuator separator] := by
  intro rest clear
  have bare : (separatedTokens separator names ++ rest).head? ≠ some (.punctuator separator) := by
    obtain ⟨first, others, rfl⟩ := List.exists_cons_of_ne_nil nonempty
    cases others <;> simp [separatedTokens]
  have enough := length_le_separatedTokens separator names
  unfold separated
  rw [bind_of_ok (skip_of_head_ne bare), bind_of_ok (bound_eq _)]
  refine itemsSeparated_returns returned nonempty ?_ rest clear
  simp only [List.length_append]
  omega

/-- Items behind their opening signs are taken back, in front of anything that neither
opens another nor prolongs the last one. -/
theorem itemsWhile_returns {fuel : Nat} (enough : items.length ≤ fuel)
    (unbarred : .punctuator opening ∉ barred)
    (returned : ∀ value ∈ items, Returns item (shown value) value barred)
    (opened : ∀ value ∈ items, (shown value).head? = some (.punctuator opening)) :
    Returns (itemsWhile opening item fuel) (items.flatMap shown) items
      (.punctuator opening :: barred) := by
  intro rest clear
  induction items generalizing fuel with
  | nil =>
    have shut := clear _ List.mem_cons_self
    cases fuel with
    | zero => rfl
    | succ fuel =>
      unfold itemsWhile
      rw [bind_of_ok (sees_eq opening _), if_neg (by simpa using shut)]
      rfl
  | cons first others inductionHypothesis =>
    cases fuel with
    | zero => simp at enough
    | succ fuel =>
      have further := inductionHypothesis (Nat.le_of_succ_le_succ enough)
        (fun value inside => returned value (List.mem_cons_of_mem _ inside))
        (fun value inside => opened value (List.mem_cons_of_mem _ inside))
      have apart : Clear barred (others.flatMap shown ++ rest) := by
        cases others with
        | nil => exact fun token inside => clear token (List.mem_cons_of_mem _ inside)
        | cons second others =>
          intro token inside found
          have sign := opened second (by simp)
          rw [List.flatMap_cons, List.append_assoc, List.head?_append, sign] at found
          cases found
          exact unbarred inside
      have one := returned first List.mem_cons_self _ apart
      have sign := opened first List.mem_cons_self
      unfold itemsWhile
      rw [List.flatMap_cons, List.append_assoc, bind_of_ok (sees_eq opening _),
        if_pos (by rw [List.head?_append, sign]; simp)]
      refine (bind_of_ok one).trans ?_
      exact bind_of_ok further

end Completeness

end GraphQLCanon.Grammar.Parser
