import GraphQLCanon.Lexical.Scan
import GraphQLCanon.Proofs.Numbers
import GraphQLCanon.Proofs.QuotedStrings
import GraphQLCanon.Proofs.BlockStrings

/-!
# Spelling of tokens

Every token that a text is read as has a spelling, which is read as the same
token in front of every delimited text. Quoted strings can be spelled whatever
their value is. The other tokens with a text are restricted by what the grammar
admits, and a block string by what its value can be.
-/

namespace GraphQLCanon.Lexical

/-- How a token is written. -/
def Token.spelling : Token → List Char
  | punctuator sign => sign.spelling.toList
  | name text => text.toList
  | int text => text.toList
  | float text => text.toList
  | string value => QuotedString.encode value.toList
  | blockString value => BlockString.encode value.toList

/-- A token that some text is read as. -/
def Token.Legible (token : Token) : Prop :=
  ∃ first rest remaining, readToken first rest = .ok (token, remaining)

/-- Characters that form a name. -/
def IsName (characters : List Char) : Prop :=
  ∃ first others, characters = first :: others ∧ isNameStart first = true ∧
    ∀ character ∈ others, isNameContinue character = true

/-- A number is an integer or has a fraction or an exponent. -/
theorem readNumber_kind {source remaining : List Char} {token : Token}
    (read : readNumber source = .ok (token, remaining)) :
    ∃ text, token = .int text ∨ token = .float text := by
  unfold readNumber at read
  cases foundWhole : readIntegerPart (splitMinus source).2 with
  | error fault => simp [foundWhole, bind, Except.bind] at read
  | ok whole =>
    cases foundFraction : readFraction whole.2 with
    | error fault => simp [foundWhole, foundFraction, bind, Except.bind] at read
    | ok fraction =>
      cases foundExponent : readExponent fraction.2 with
      | error fault => simp [foundWhole, foundFraction, foundExponent, bind, Except.bind] at read
      | ok exponent =>
        simp only [foundWhole, foundFraction, foundExponent, bind, Except.bind] at read
        split at read
        · contradiction
        · cases read
          unfold numberToken
          simp only
          split
          · exact ⟨_, .inl rfl⟩
          · exact ⟨_, .inr rfl⟩

/-- What can be read as a token: a punctuator, a name, a number that begins with a
digit or a minus sign, or a string of either form. -/
theorem readToken_cases {first : Char} {rest remaining : List Char} {token : Token}
    (read : readToken first rest = .ok (token, remaining)) :
    (∃ sign, token = .punctuator sign) ∨
    (∃ text : String, token = .name text ∧ IsName text.toList) ∨
    ((first.isDigit || first == '-') = true ∧
      readNumber (first :: rest) = .ok (token, remaining)) ∨
    (∃ value, token = .string value) ∨
    (∃ raw, token = .blockString (String.ofList (BlockString.value raw))) := by
  unfold readToken at read
  split at read
  · cases read
    exact .inl ⟨_, rfl⟩
  · split at read
    · split at read
      · cases read
        exact .inl ⟨_, rfl⟩
      · contradiction
    · split at read
      · unfold readString at read
        split at read
        · rename_i inner
          cases found : BlockString.readRaw inner with
          | error fault => simp [BlockString.read, found, Except.map] at read
          | ok parts =>
            simp only [BlockString.read, found, Except.map, Except.ok.injEq, Prod.mk.injEq] at read
            exact .inr (.inr (.inr (.inr ⟨parts.1, read.1.symm⟩)))
        · cases found : QuotedString.read rest with
          | error fault => simp [found, Except.map] at read
          | ok parts =>
            simp only [found, Except.map, Except.ok.injEq, Prod.mk.injEq] at read
            exact .inr (.inr (.inr (.inl ⟨_, read.1.symm⟩)))
      · split at read
        · rename_i number
          exact .inr (.inr (.inl ⟨number, read⟩))
        · split at read
          · rename_i start
            cases read
            refine .inr (.inl ⟨_, rfl, first, rest.takeWhile isNameContinue, ?_, start, ?_⟩)
            · rw [String.toList_ofList]
            · exact forall_mem_takeWhile isNameContinue rest
          · split at read <;> contradiction

/-- A punctuator is read whatever follows it. -/
theorem readToken_punctuator (sign : Punctuator) (rest : List Char) :
    ∃ first tail, sign.spelling.toList = first :: tail ∧
      readToken first (tail ++ rest) = .ok (.punctuator sign, rest) := by
  cases sign <;> exact ⟨_, _, rfl, rfl⟩

/-- No single character that writes a punctuator opens another token. -/
theorem ofChar?_eq_none {character : Char}
    (opens : isNameStart character = true ∨ (character.isDigit || character == '-') = true) :
    Punctuator.ofChar? character = none := by
  unfold Punctuator.ofChar?
  split <;> first | rfl | (rcases opens with opens | opens <;> contradiction)

/-- The code points at which a name begins: upper-case letters, the underscore and
lower-case letters. -/
theorem isNameStart_iff {character : Char} :
    isNameStart character = true ↔ (65 ≤ character.toNat ∧ character.toNat ≤ 90) ∨
      character.toNat = 95 ∨ (97 ≤ character.toNat ∧ character.toNat ≤ 122) := by
  have spelled : isNameStart character =
      ((decide ((65 : UInt32) ≤ character.val ∧ character.val ≤ (90 : UInt32)) ||
        decide ((97 : UInt32) ≤ character.val) && decide (character.val ≤ (122 : UInt32))) ||
          character == '_') := rfl
  have underscore : character = '_' ↔ character.toNat = 95 := by
    constructor
    · rintro rfl
      rfl
    · intro same
      exact Char.toNat_inj.1 same
  simp only [spelled, Bool.or_eq_true, Bool.and_eq_true, decide_eq_true_eq, beq_iff_eq,
    UInt32.le_iff_toNat_le, underscore]
  constructor
  · rintro ((upper | lower) | same)
    · exact .inl upper
    · exact .inr (.inr lower)
    · exact .inr (.inl same)
  · rintro (upper | same | lower)
    · exact .inl (.inl upper)
    · exact .inr same
    · exact .inl (.inr lower)

/-- The code points of digits. -/
theorem isDigit_iff {character : Char} :
    character.isDigit = true ↔ 48 ≤ character.toNat ∧ character.toNat ≤ 57 := by
  have spelled : character.isDigit =
      (decide ((48 : UInt32) ≤ character.val) && decide (character.val ≤ (57 : UInt32))) := rfl
  simp only [spelled, Bool.and_eq_true, decide_eq_true_eq, UInt32.le_iff_toNat_le]
  rfl

/-- The start of a name is no digit. -/
theorem isDigit_eq_false_of_isNameStart {character : Char} (start : isNameStart character = true) :
    character.isDigit = false := by
  rw [isNameStart_iff] at start
  rw [← Bool.not_eq_true, isDigit_iff]
  omega

/-- A name is read in front of every delimited text. -/
theorem readToken_name {characters rest : List Char} (isName : IsName characters)
    (delimited : Delimited rest) :
    ∃ first tail, characters = first :: tail ∧
      readToken first (tail ++ rest) = .ok (.name (String.ofList characters), rest) := by
  obtain ⟨first, others, rfl, start, inside⟩ := isName
  refine ⟨first, others, rfl, ?_⟩
  have notPoint : first ≠ '.' := by
    rintro rfl
    contradiction
  have notQuote : first ≠ '"' := by
    rintro rfl
    contradiction
  have notNumber : (first.isDigit || first == '-') = false := by
    rw [isDigit_eq_false_of_isNameStart start, Bool.false_or, beq_eq_false_iff_ne]
    rintro rfl
    contradiction
  simp [readToken, ofChar?_eq_none (.inl start), notPoint, notQuote, notNumber, start,
    takeWhile_append_of_leaves inside delimited.leaves_name,
    dropWhile_append_of_leaves inside delimited.leaves_name]

/-- A number is read in front of every delimited text. -/
theorem readToken_number {first : Char} {rest remaining : List Char} {token : Token}
    (opens : (first.isDigit || first == '-') = true)
    (read : readNumber (first :: rest) = .ok (token, remaining)) {behind : List Char}
    (delimited : Delimited behind) :
    ∃ tail, token.spelling = first :: tail ∧
      readToken first (tail ++ behind) = .ok (token, behind) := by
  obtain ⟨spelling, nonempty, split, text⟩ := readNumber_ok read
  cases spelling with
  | nil => contradiction
  | cons start tail =>
    obtain ⟨rfl, -⟩ := List.cons.inj split
    have spelled : token.spelling = first :: tail := by
      obtain ⟨number, rfl | rfl⟩ := readNumber_kind read
      all_goals
        simp only [Token.text?, Option.some.injEq] at text
        simp [Token.spelling, text]
    have notPoint : first ≠ '.' := by
      rintro rfl
      contradiction
    have notQuote : first ≠ '"' := by
      rintro rfl
      contradiction
    have again := readNumber_append read split delimited.leaves_number
    refine ⟨tail, spelled, ?_⟩
    rw [List.cons_append] at again
    simp [readToken, ofChar?_eq_none (.inr opens), notPoint, notQuote, opens, again]

/-- A quoted string does not go on like a block string: its first character is no
double quote, and an empty one is followed by none. -/
theorem flatMap_escape_ne {value rest : List Char} (delimited : Delimited rest)
    (inner : List Char) :
    value.flatMap QuotedString.escape ++ '"' :: rest ≠ '"' :: '"' :: inner := by
  intro same
  cases value with
  | nil =>
    obtain ⟨-, rfl⟩ := List.cons.inj same
    exact (delimited.head_ne rfl).2 rfl
  | cons character others =>
    obtain ⟨first, tail, written, notQuote⟩ := QuotedString.head_escape character
    rw [List.flatMap_cons, written] at same
    exact notQuote (List.cons.inj same).1

/-- A quoted string is read in front of every delimited text. -/
theorem readToken_string (value : String) {rest : List Char} (delimited : Delimited rest) :
    ∃ tail, (Token.string value).spelling = '"' :: tail ∧
      readToken '"' (tail ++ rest) = .ok (.string value, rest) := by
  refine ⟨value.toList.flatMap QuotedString.escape ++ ['"'], rfl, ?_⟩
  rw [List.append_assoc, List.singleton_append]
  change readString _ = _
  unfold readString
  split
  · rename_i inner same
    exact absurd same (flatMap_escape_ne delimited inner)
  · simp [QuotedString.read, QuotedString.readAfter_flatMap_escape, Except.map]

/-- A block string with a value that a block string can have is read whatever
follows it. -/
theorem readToken_blockString (raw rest : List Char) :
    ∃ tail, (Token.blockString (String.ofList (BlockString.value raw))).spelling = '"' :: tail ∧
      readToken '"' (tail ++ rest) =
        .ok (.blockString (String.ofList (BlockString.value raw)), rest) := by
  obtain ⟨lines, settled, same⟩ := BlockString.exists_settled_value raw
  obtain ⟨body, written, read⟩ := BlockString.read_encode settled rest
  refine ⟨'"' :: '"' :: body, ?_, ?_⟩
  · rw [Token.spelling, String.toList_ofList, same, written]
  · have string : readToken '"' ('"' :: '"' :: body ++ rest) =
        (BlockString.read (body ++ rest)).map
          fun parts => (.blockString (String.ofList parts.1), parts.2) := rfl
    rw [string, read, same]
    rfl

/-- A legible token is read from its spelling in front of every delimited text. -/
theorem Token.Legible.read {token : Token} (legible : token.Legible) {rest : List Char}
    (delimited : Delimited rest) :
    ∃ first tail, token.spelling = first :: tail ∧
      readToken first (tail ++ rest) = .ok (token, rest) := by
  obtain ⟨first, source, remaining, found⟩ := legible
  rcases readToken_cases found with ⟨sign, rfl⟩ | ⟨text, rfl, isName⟩ | ⟨opens, number⟩ |
    ⟨value, rfl⟩ | ⟨raw, rfl⟩
  · exact readToken_punctuator sign rest
  · obtain ⟨start, tail, spelled, read⟩ := readToken_name isName delimited
    rw [String.ofList_toList] at read
    exact ⟨start, tail, spelled, read⟩
  · exact ⟨first, readToken_number opens number delimited⟩
  · exact ⟨'"', readToken_string value delimited⟩
  · exact ⟨'"', readToken_blockString raw rest⟩

/-- Every quoted string is legible. -/
theorem legible_string (value : String) : (Token.string value).Legible := by
  obtain ⟨tail, -, read⟩ := readToken_string value delimited_nil
  exact ⟨_, _, _, read⟩

/-- Every punctuator is legible. -/
theorem legible_punctuator (sign : Punctuator) : (Token.punctuator sign).Legible := by
  obtain ⟨first, tail, -, read⟩ := readToken_punctuator sign []
  exact ⟨_, _, _, read⟩

/-- Every name is legible. -/
theorem legible_name {text : String} (isName : IsName text.toList) : (Token.name text).Legible := by
  obtain ⟨first, tail, -, read⟩ := readToken_name isName delimited_nil
  rw [String.ofList_toList] at read
  exact ⟨_, _, _, read⟩

/-- The text of a legible name is a name. -/
theorem isName_of_legible {text : String} (legible : (Token.name text).Legible) :
    IsName text.toList := by
  obtain ⟨first, source, remaining, found⟩ := legible
  rcases readToken_cases found with ⟨sign, same⟩ | ⟨other, same, isName⟩ | ⟨-, number⟩ |
    ⟨value, same⟩ | ⟨raw, same⟩
  · contradiction
  · cases same
    exact isName
  · obtain ⟨value, same | same⟩ := readNumber_kind number <;> contradiction
  · contradiction
  · contradiction

/-- A legible name is not empty. -/
theorem isEmpty_of_legible {name : String} (legible : (Token.name name).Legible) :
    name.isEmpty = false := by
  obtain ⟨first, others, spelled, -⟩ := isName_of_legible legible
  have nonempty : name ≠ "" := by
    rintro rfl
    contradiction
  simpa using nonempty

end GraphQLCanon.Lexical
