import GraphQLCanon.Text.Blank
import GraphQLCanon.Text.DecimalDigit
import GraphQLCanon.CommandLine.Usage
import GraphQLCanon.CommandLine.Store

/-!
# Arguments

Options of the program come first, then the name of the command. The arguments of
the `format` command are files, flags and two widths. Its options may stand before
and behind files, up to a double dash; short flags can be joined, and the value of
a width follows its name or an equals sign. Arguments are first told apart and then
judged: a call for help first, then the widths in the order in which they were
first given, and the files last.
-/

namespace GraphQLCanon.CommandLine

/-- The arguments told apart: flags, widths as they were written, and files, each
in order. -/
structure Sorted where
  flags : List Flag
  widths : List (Width × String)
  files : List String
  deriving DecidableEq, Repr

/-- True of arguments that are options: a dash and something behind it. -/
def looksLikeOption (argument : String) : Bool :=
  match argument.toList with
  | '-' :: _ :: _ => true
  | _ => false

/-- An option as it was written, cut at its first equals sign: the name, and the
value if there is one. -/
def splitOption (argument : String) : String × Option String :=
  let characters := argument.toList
  let name := String.ofList (characters.takeWhile (· != '='))
  match characters.dropWhile (· != '=') with
  | [] => (name, none)
  | _ :: value => (name, some (String.ofList value))

/-- The flags that joined short names stand for. -/
def shortFlags (letters : List Char) : Except UsageError (List Flag) :=
  letters.mapM fun letter =>
    match Flag.ofShort? letter with
    | some flag => .ok flag
    | none => .error (.unknownOption (String.ofList ['-', letter]))

/-- The flags of an option that is neither a long flag nor a width. -/
def otherOption (argument name : String) : Except UsageError (List Flag) :=
  if "--".toList.isPrefixOf argument.toList then .error (.unknownOption name)
  else shortFlags (argument.toList.drop 1)

/-- Tells arguments apart, in order. -/
def sortArguments (sorted : Sorted) : List String → Except UsageError Sorted
  | [] => .ok sorted
  | argument :: others =>
    if argument = "--" then .ok { sorted with files := sorted.files ++ others }
    else if looksLikeOption argument then
      let (name, value?) := splitOption argument
      match Width.ofLong? name, Flag.ofLong? name with
      | some width, _ =>
        match value? with
        | some value =>
          sortArguments { sorted with widths := sorted.widths ++ [(width, value)] } others
        | none =>
          match others with
          | value :: behind =>
            sortArguments { sorted with widths := sorted.widths ++ [(width, value)] } behind
          | [] => .error (.valueMissing name)
      | none, some flag =>
        if value?.isSome then .error (.valueNotTaken name)
        else sortArguments { sorted with flags := sorted.flags ++ [flag] } others
      | none, none => do
        let flags ← otherOption argument name
        sortArguments { sorted with flags := sorted.flags ++ flags } others
    else sortArguments { sorted with files := sorted.files ++ [argument] } others

/-- The digits that characters write, with single underscores allowed between them.
The flag tells whether a digit stands directly before. -/
def digitsOf? (behindDigit : Bool) : List Char → Option (List Nat)
  | [] => if behindDigit then some [] else none
  | character :: rest =>
    match Text.decimalDigit? character with
    | some digit => (digitsOf? true rest).map (digit :: ·)
    | none => if character = '_' && behindDigit then digitsOf? false rest else none

/-- The number that digits write. -/
def magnitude? (characters : List Char) : Option Nat :=
  match digitsOf? false characters with
  | none => none
  | some digits =>
    if Text.mostDigits < digits.length then none
    else some (digits.foldl (fun value digit => value * 10 + digit) 0)

/-- The whole number that a text writes: white space around it and a sign are
allowed. -/
def integer? (text : String) : Option Int :=
  match Text.trimEnds Text.isWhiteSpace text.toList with
  | '-' :: digits => (magnitude? digits).map fun value => -(value : Int)
  | '+' :: digits => (magnitude? digits).map fun value => (value : Int)
  | digits => (magnitude? digits).map fun value => (value : Int)

/-- The value of a width, which must not be below its least one. -/
def readWidth (width : Width) (text : String) :
    Except UsageError { n : Nat // width.least ≤ n } :=
  match integer? text with
  | none => .error (.notInteger width.long text)
  | some value =>
    if large : (width.least : Int) ≤ value then .ok ⟨value.toNat, by omega⟩
    else .error (.belowLeast width.long value width.least)

/-- The last text that was given for a width. -/
def Sorted.widthText? (sorted : Sorted) (width : Width) : Option String :=
  (sorted.widths.reverse.find? fun given => given.1 == width).map Prod.snd

/-- The value of a width, or its standard if none was given. -/
def Sorted.width (sorted : Sorted) (width : Width) :
    Except UsageError { n : Nat // width.least ≤ n } :=
  match sorted.widthText? width with
  | none => .ok width.standard
  | some text => readWidth width text

/-- The error of the widths: that of the one given first if both are wrong. -/
def Sorted.checkWidths (sorted : Sorted) : Except UsageError Unit :=
  (sorted.widths.map Prod.fst).eraseDups.forM fun width =>
    match sorted.widthText? width with
    | none => .ok ()
    | some text => (readWidth width text).map fun _ => ()

/-- A file argument has to lead to a file. -/
def checkFile (store : Store) (path : String) : Except UsageError Unit :=
  match store.entry path with
  | .missing => .error (.fileMissing path)
  | .directory => .error (.fileIsDirectory path)
  | .file _ => .ok ()

/-- What a run was asked to do. -/
structure Request where
  files : List String
  write : Bool
  check : Bool
  verbose : Bool
  options : Options
  deriving DecidableEq, Repr

/-- Judges the arguments of the command. -/
def Sorted.request (sorted : Sorted) (store : Store) : Except UsageError Request := do
  sorted.checkWidths
  let indent ← sorted.width .indent
  let maxWidth ← sorted.width .maxWidth
  if sorted.files.isEmpty then .error .filesMissing
  sorted.files.forM (checkFile store)
  let write := sorted.flags.contains .write
  let check := sorted.flags.contains .check
  if write && check then .error .writeAndCheck
  return ⟨sorted.files, write, check, sorted.flags.contains .verbose,
    ⟨indent, maxWidth, false, maxWidth.property⟩⟩

/-- What the program is to do: format files, or show a page. -/
inductive Task
  | format (request : Request)
  | show (page : Page)
  deriving DecidableEq, Repr

/-- The page that an option of the program asks for. -/
def ProgramFlag.page : ProgramFlag → Page
  | version => .version
  | help => .program

/-- Takes the options of the program from the front of the arguments, up to the
first one that is none; a double dash ends them and is passed over. -/
def programFlags : List String → Except UsageError (List ProgramFlag × List String)
  | [] => .ok ([], [])
  | argument :: others =>
    if argument = "--" then .ok ([], others)
    else if looksLikeOption argument then
      let (name, value?) := splitOption argument
      match ProgramFlag.ofLong? name with
      | some flag =>
        if value?.isSome then .error (.valueNotTaken name)
        else (programFlags others).map fun (flags, behind) => (flag :: flags, behind)
      | none =>
        .error (.unknownProgramOption
          (if "--".toList.isPrefixOf argument.toList then name
            else String.ofList (argument.toList.take 2)))
    else .ok ([], argument :: others)

/-- What the arguments of the `format` command ask for. -/
def formatTask (store : Store) (arguments : List String) : Except UsageError Task := do
  let sorted ← sortArguments ⟨[], [], []⟩ arguments
  if sorted.flags.contains .help then return .show .formatCommand
  return .format (← sorted.request store)

/-- What a command asks for. The name of an unknown command is tried as an option
of the program before it is refused. -/
def commandTask (store : Store) (name : String) (arguments : List String) :
    Except UsageError Task :=
  if commands.contains name then formatTask store arguments
  else
    match programFlags (name :: arguments) with
    | .error error => .error error
    | .ok (flag :: _, _) => .ok (.show flag.page)
    | .ok ([], _) => .error (.unknownCommand name)

/-- What the arguments of a run ask for. -/
def Task.ofArguments (store : Store) (arguments : List String) : Except UsageError Task := do
  match ← programFlags arguments with
  | (flag :: _, _) => return .show flag.page
  | ([], []) => .error .missingCommand
  | ([], name :: others) => commandTask store name others

end GraphQLCanon.CommandLine
