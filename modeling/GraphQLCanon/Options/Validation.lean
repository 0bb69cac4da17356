import GraphQLCanon.Text.Blank
import GraphQLCanon.Text.DecimalDigit
import GraphQLCanon.Options.Basic
import GraphQLCanon.Options.BinaryNumber

/-!
# Validation of options

Options may be given as values of several kinds. A whole number can be written as
a number, a truth value or a text, and a truth value likewise. Every option that
cannot be read is reported, in a fixed order, with what is wrong and a code.

A whole number in a text may have zeros in front, with underscores among them and
a minus sign behind them, single underscores between its digits, and a fraction of
zeros. A text that begins with too many digits is refused as too large at once.
-/

namespace GraphQLCanon

/-- A value that was given for an option. Numbers are whole when they are written
with digits only, and binary when they are written with a point or an exponent. -/
inductive RawValue
  | null
  | boolean (value : Bool)
  | whole (value : Int)
  | binary (value : BinaryNumber)
  | notFinite
  | text (value : String)
  | composite
  deriving DecidableEq, Repr

/-- What is wrong with a value. -/
inductive OptionProblem
  | notInteger
  | unreadableInteger
  | fractionalInteger
  | oversizedInteger
  | infiniteInteger
  | belowLeast (least : Nat)
  | notBoolean
  | unreadableBoolean
  deriving DecidableEq, Repr

/-- A problem in words, with its code in brackets. -/
def OptionProblem.message : OptionProblem → String
  | notInteger => "Input should be a valid integer [int_type]"
  | unreadableInteger =>
    "Input should be a valid integer, unable to parse string as an integer [int_parsing]"
  | fractionalInteger =>
    "Input should be a valid integer, got a number with a fractional part [int_from_float]"
  | oversizedInteger =>
    "Unable to parse input string as an integer, exceeded maximum size [int_parsing_size]"
  | infiniteInteger => "Input should be a finite number [finite_number]"
  | belowLeast least =>
    "Input should be greater than or equal to " ++ toString least ++ " [greater_than_equal]"
  | notBoolean => "Input should be a valid boolean [bool_type]"
  | unreadableBoolean => "Input should be a valid boolean, unable to interpret input [bool_parsing]"

/-- The options by name. -/
inductive OptionField
  | indentWidth
  | maxWidth
  | strictDescriptions
  deriving DecidableEq, Repr

/-- How an option is named where values are given for it. -/
def OptionField.name : OptionField → String
  | indentWidth => "indent_width"
  | maxWidth => "max_width"
  | strictDescriptions => "strict_descriptions"

/-- An option and what is wrong with its value. -/
structure OptionError where
  field : OptionField
  problem : OptionProblem
  deriving DecidableEq, Repr

/-- The message about several options, each with what is wrong. -/
def OptionError.summary (errors : List OptionError) : String :=
  "; ".intercalate (errors.map fun error => error.field.name ++ ": " ++ error.problem.message)

/-- The message when an option is to be changed after it was read. -/
def frozenMessage (name : String) : String :=
  name ++ ": Instance is frozen [frozen_instance]"

namespace RawValue

/-- The value of a number that is written with a point or an exponent. -/
def ofDecimal (digits : Int) (places : Nat) : RawValue :=
  match BinaryNumber.ofDecimal? digits places with
  | some value => binary value
  | none => notFinite

/-- The digits at the front of a text, with a minus sign before them. -/
def leadingDigits : List Char → List Char
  | '-' :: rest => '-' :: rest.takeWhile Char.isDigit
  | characters => characters.takeWhile Char.isDigit

/-- True of texts that begin with a number of too many digits. Zeros in front make
it no number. -/
def isOversized (characters : List Char) : Bool :=
  match characters with
  | '0' :: _ => false
  | '-' :: '0' :: _ => false
  | _ => Text.mostDigits < (leadingDigits characters).length

/-- A number without the zeros and underscores in front of it. It has to begin with
a digit. Of nothing but zeros and underscores the last one stays, and so does the
last one before a point. A minus sign may stand behind them. -/
def withoutLeadingZeros? : List Char → Option (List Char)
  | '0' :: rest =>
    let isFiller := fun character => character == '0' || character == '_'
    let last := (rest.takeWhile isFiller).getLast?.getD '0'
    match rest.dropWhile isFiller with
    | [] => some [last]
    | '.' :: fraction => some (last :: '.' :: fraction)
    | next :: others => if next.isDigit || next == '-' then some (next :: others) else none
  | first :: rest => if first.isDigit then some (first :: rest) else none
  | [] => none

/-- The text before a fraction of nothing but zeros, or all of it when there is no
point. -/
def withoutZeroFraction? (characters : List Char) : Option (List Char) :=
  let whole := characters.takeWhile (· != '.')
  match characters.dropWhile (· != '.') with
  | [] => some whole
  | _ :: fraction =>
    if !fraction.isEmpty && fraction.all (· == '0') then some whole else none

/-- A number without its underscores. They stand neither at an end nor next to each
other. -/
def withoutUnderscores? (characters : List Char) : Option (List Char) :=
  if characters.head? == some '_' || characters.getLast? == some '_' ||
    (characters.zip characters.tail).contains ('_', '_') then none
  else some (characters.filter (· != '_'))

/-- The digits of a number, with the sign that may stand behind zeros. -/
def digitsOfText? (characters : List Char) : Option (List Char) := do
  withoutUnderscores? (← withoutZeroFraction? (← withoutLeadingZeros? characters))

/-- The number that digits write, the most significant one first and no zero unless
it stands alone. -/
def magnitude? (digits : List Char) : Option Nat :=
  match digits with
  | [] => none
  | '0' :: _ :: _ => none
  | _ =>
    if digits.all Char.isDigit then
      some (digits.foldl (fun value digit => value * 10 + (digit.toNat - '0'.toNat)) 0)
    else none

/-- The number that digits write, with a minus sign before them. -/
def signedMagnitude? (characters : List Char) : Option Int :=
  if Text.mostDigits < characters.length then none
  else
    match characters with
    | '-' :: digits => (magnitude? digits).map fun value => -(value : Int)
    | digits => (magnitude? digits).map fun value => (value : Int)

/-- The number that a text writes, with white space around it and a sign in front
allowed. -/
def integerOfText? (text : String) : Option Int :=
  match Text.trimEnds Text.isWhiteSpace text.toList with
  | '-' :: unsigned => (digitsOfText? unsigned).bind fun digits => signedMagnitude? ('-' :: digits)
  | '+' :: unsigned => (digitsOfText? unsigned).bind signedMagnitude?
  | characters => (digitsOfText? characters).bind signedMagnitude?

/-- True of the numbers that a machine word of 64 binary digits holds. -/
def fitsWord (value : Int) : Bool := -0x8000000000000000 ≤ value && value < 0x8000000000000000

/-- The whole number that a binary number is, if it is one that lies inside the
bounds of a machine word. -/
def wordOfBinary? (value : BinaryNumber) : Option Int :=
  value.whole?.filter fun whole => fitsWord whole && whole != -0x8000000000000000

/-- Reads a whole number. -/
def integer : RawValue → Except OptionProblem Int
  | null => .error .notInteger
  | boolean value => .ok value.toInt
  | whole value => .ok value
  | binary value =>
    match value.whole?, wordOfBinary? value with
    | none, _ => .error .fractionalInteger
    | some _, none => .error .oversizedInteger
    | some _, some value => .ok value
  | notFinite => .error .infiniteInteger
  | text value =>
    if isOversized value.toList then .error .oversizedInteger
    else ((integerOfText? value).map .ok).getD (.error .unreadableInteger)
  | composite => .error .notInteger

/-- Reads a whole number that is not below a bound. -/
def natural (least : Nat) (value : RawValue) : Except OptionProblem { n : Nat // least ≤ n } := do
  let number ← value.integer
  if large : (least : Int) ≤ number then .ok ⟨number.toNat, by omega⟩
  else .error (.belowLeast least)

/-- The truth value of a word, whose case does not matter. -/
def booleanOfText? (text : String) : Option Bool :=
  let word := text.toLower
  if word ∈ ["1", "true", "t", "yes", "y", "on"] then some true
  else if word ∈ ["0", "false", "f", "no", "n", "off"] then some false
  else none

/-- The truth value of a machine word, if it is one or zero. -/
def truthOfWord (value : Int) : Except OptionProblem Bool :=
  if value = 0 then .ok false
  else if value = 1 then .ok true
  else .error .unreadableBoolean

/-- Reads a truth value. Numbers outside a machine word are none. -/
def truth : RawValue → Except OptionProblem Bool
  | null => .error .notBoolean
  | boolean value => .ok value
  | whole value => if fitsWord value then truthOfWord value else .error .notBoolean
  | binary value => ((wordOfBinary? value).map truthOfWord).getD (.error .notBoolean)
  | notFinite => .error .notBoolean
  | text value => ((booleanOfText? value).map .ok).getD (.error .unreadableBoolean)
  | composite => .error .notBoolean

end RawValue

/-- The values given for the options; those without one keep their standard. -/
structure RawOptions where
  indentWidth : Option RawValue
  maxWidth : Option RawValue
  strictDescriptions : Option RawValue
  deriving DecidableEq, Repr

/-- The errors of a value that was read for an option. -/
def errorsOf {α : Type} (field : OptionField) : Except OptionProblem α → List OptionError
  | .ok _ => []
  | .error problem => [⟨field, problem⟩]

/-- Reads all options, or reports every one that cannot be read. -/
def RawOptions.validate (raw : RawOptions) : Except (List OptionError) Options :=
  let indentWidth := (raw.indentWidth.map (RawValue.natural 0)).getD
    (.ok ⟨Options.standard.indentWidth, Nat.zero_le _⟩)
  let maxWidth := (raw.maxWidth.map (RawValue.natural 1)).getD
    (.ok ⟨Options.standard.maxWidth, Options.standard.maxWidth_pos⟩)
  let strict := (raw.strictDescriptions.map RawValue.truth).getD
    (.ok Options.standard.strictDescriptions)
  match indentWidth, maxWidth, strict with
  | .ok indent, .ok width, .ok strictDescriptions =>
    .ok ⟨indent, width, strictDescriptions, width.property⟩
  | _, _, _ =>
    .error (errorsOf .indentWidth indentWidth ++ errorsOf .maxWidth maxWidth ++
      errorsOf .strictDescriptions strict)

end GraphQLCanon
