import GraphQLCanon.Lexical.Character

/-!
# Delimiters

A name or a number ends where no further character belongs to it, and an empty
string is told from a block string by what stands behind it. A text that begins
with a delimiter, or is empty, prolongs no token in front of it.
-/

namespace GraphQLCanon.Lexical

/-- True of the characters that prolong no token in front of them. -/
def delimits (character : Char) : Bool :=
  !isNameContinue character && character != '.' && character != '"'

/-- A text that prolongs no token in front of it. -/
def Delimited (text : List Char) : Prop :=
  ∀ character, text.head? = some character → delimits character = true

/-- A text that begins with a character from outside a class, or is empty. -/
def Leaves (class? : Char → Bool) (text : List Char) : Prop :=
  ∀ character, text.head? = some character → class? character = false

/-- Only the first character decides whether a text is delimited. -/
theorem delimited_iff_all (text : List Char) :
    text.head?.all delimits = true ↔ Delimited text := by
  cases text <;> simp [Delimited]

instance (text : List Char) : Decidable (Delimited text) :=
  decidable_of_iff _ (delimited_iff_all text)

@[simp]
theorem delimited_nil : Delimited [] := by simp [Delimited]

@[simp]
theorem delimited_cons (character : Char) (text : List Char) :
    Delimited (character :: text) ↔ delimits character = true := by
  simp [Delimited]

@[simp]
theorem leaves_cons (class? : Char → Bool) (character : Char) (text : List Char) :
    Leaves class? (character :: text) ↔ class? character = false := by
  simp [Leaves]

/-- Two delimited texts are delimited together: the second one counts where the
first one is empty. -/
theorem Delimited.append {text other : List Char} (first : Delimited text)
    (second : Delimited other) : Delimited (text ++ other) := by
  cases text with
  | nil => exact second
  | cons character rest => simpa using first

/-- A delimiter at the front of a text decides for everything behind it. -/
theorem Delimited.append_of_ne_nil {text : List Char} (first : Delimited text)
    (nonempty : text ≠ []) (other : List Char) : Delimited (text ++ other) := by
  cases text with
  | nil => contradiction
  | cons character rest => simpa using first

/-- No name goes on in a delimited text. -/
theorem Delimited.leaves_name {text : List Char} (delimited : Delimited text) :
    Leaves isNameContinue text := by
  intro character inFront
  have apart := delimited character inFront
  simp only [delimits, Bool.and_eq_true, Bool.not_eq_true'] at apart
  exact apart.1.1

/-- Neither a point nor a double quote opens a delimited text. -/
theorem Delimited.head_ne {text : List Char} (delimited : Delimited text) {character : Char}
    (inFront : text.head? = some character) : character ≠ '.' ∧ character ≠ '"' := by
  have apart := delimited character inFront
  simp only [delimits, Bool.and_eq_true, bne_iff_ne] at apart
  exact ⟨apart.1.2, apart.2⟩

/-- True of the characters that would go on with a number or spoil it. -/
def isNumberContinue (character : Char) : Bool :=
  isNameContinue character || character == '.'

/-- No number goes on in a delimited text. -/
theorem Delimited.leaves_number {text : List Char} (delimited : Delimited text) :
    Leaves isNumberContinue text := by
  intro character inFront
  simp [isNumberContinue, delimited.leaves_name character inFront, (delimited.head_ne inFront).1]

/-- Where no number goes on, there is neither a part of a name nor a digit nor a point. -/
theorem Leaves.number_parts {text : List Char} (leaves : Leaves isNumberContinue text) :
    Leaves isNameContinue text ∧ Leaves Char.isDigit text ∧ text.head? ≠ some '.' := by
  cases text with
  | nil => simp [Leaves]
  | cons character rest =>
    have apart : isNumberContinue character = false := by simpa using leaves
    simp only [isNumberContinue, isNameContinue, Bool.or_eq_false_iff, beq_eq_false_iff_ne] at apart
    simp [isNameContinue, apart]

/-- A word in front of two texts stands in front of the first one when it does not go on into
the second. -/
theorem prefix_of_prefix_append {word left right : List Char} (front : word <+: left ++ right)
    (fresh : ∀ first, right.head? = some first → first ∉ word) : word <+: left := by
  rcases List.prefix_or_prefix_of_prefix front (List.prefix_append left right) with short | long
  · exact short
  · obtain ⟨more, rfl⟩ := long
    rw [List.prefix_append_right_inj] at front
    cases more with
    | nil => simp
    | cons first more =>
      obtain ⟨others, rfl⟩ := front
      exact absurd (by simp) (fresh first rfl)

/-- Characters of a class end where the text behind them leaves the class. -/
theorem takeWhile_append_of_leaves {class? : Char → Bool} {characters rest : List Char}
    (inside : ∀ character ∈ characters, class? character = true)
    (outside : Leaves class? rest) : (characters ++ rest).takeWhile class? = characters := by
  rw [List.takeWhile_append_of_pos inside]
  cases rest with
  | nil => simp
  | cons character others =>
    rw [leaves_cons] at outside
    simp [outside]

/-- What is left behind characters of a class is the text behind them. -/
theorem dropWhile_append_of_leaves {class? : Char → Bool} {characters rest : List Char}
    (inside : ∀ character ∈ characters, class? character = true)
    (outside : Leaves class? rest) : (characters ++ rest).dropWhile class? = rest := by
  rw [List.dropWhile_append_of_pos inside]
  cases rest with
  | nil => simp
  | cons character others =>
    rw [leaves_cons] at outside
    simp [outside]

/-- The characters at the front of a text that belong to a class do so. -/
theorem forall_mem_takeWhile (class? : Char → Bool) (text : List Char) :
    ∀ character ∈ text.takeWhile class?, class? character = true := by
  intro character taken
  exact List.all_eq_true.1 List.all_takeWhile character taken

end GraphQLCanon.Lexical
