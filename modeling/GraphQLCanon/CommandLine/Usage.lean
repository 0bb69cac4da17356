import GraphQLCanon.CommandLine.Option
import GraphQLCanon.CommandLine.Page
import GraphQLCanon.CommandLine.Suggestion

/-!
# Errors of usage

What can be wrong with the arguments of a run. Most of these errors are shown
under two lines about the usage of the command that was meant; an option whose
value is missing or superfluous is reported without them. Behind an unknown word
the known ones that look like it are suggested.
-/

namespace GraphQLCanon.CommandLine

/-- What can be wrong with the arguments. -/
inductive UsageError
  | missingCommand
  | unknownCommand (name : String)
  | unknownProgramOption (option : String)
  | unknownOption (option : String)
  | valueMissing (option : String)
  | valueNotTaken (option : String)
  | notInteger (option value : String)
  | belowLeast (option : String) (value least : Int)
  | filesMissing
  | fileMissing (path : String)
  | fileIsDirectory (path : String)
  | writeAndCheck
  deriving DecidableEq, Repr

/-- What is wrong, in words. -/
def UsageError.message : UsageError → String
  | missingCommand => "Missing command."
  | unknownCommand name =>
    "No such command " ++ Text.quoted name ++ "." ++ suggestion commands name
  | unknownProgramOption option =>
    "No such option " ++ Text.quoted option ++ "." ++ suggestion programOptions option
  | unknownOption option =>
    "No such option " ++ Text.quoted option ++ "." ++ suggestion commandOptions option
  | valueMissing option => "Option " ++ Text.quoted option ++ " requires an argument."
  | valueNotTaken option => "Option " ++ Text.quoted option ++ " does not take a value."
  | notInteger option value =>
    "Invalid value for '" ++ option ++ "': " ++ Text.quoted value ++
      " is not a valid integer range."
  | belowLeast option value least =>
    "Invalid value for '" ++ option ++ "': " ++ toString value ++ " is not in the range x>=" ++
      toString least ++ "."
  | filesMissing => "Missing argument 'FILES...'."
  | fileMissing path =>
    "Invalid value for 'FILES...': File " ++ Text.quoted path ++ " does not exist."
  | fileIsDirectory path =>
    "Invalid value for 'FILES...': File " ++ Text.quoted path ++ " is a directory."
  | writeAndCheck => "format cannot both check and write"

/-- The usage that is shown above an error. -/
inductive UsageHint
  | none
  | program
  | formatCommand
  deriving DecidableEq, Repr

/-- Which usage is shown above an error. -/
def UsageError.hint : UsageError → UsageHint
  | missingCommand => .program
  | unknownCommand _ => .program
  | unknownProgramOption _ => .program
  | valueMissing _ => .none
  | valueNotTaken _ => .none
  | _ => .formatCommand

/-- The lines that show a usage, with an empty line behind them. -/
def UsageHint.write : UsageHint → String
  | none => ""
  | program => programUsage ++ "\nTry 'main --help' for help.\n\n"
  | formatCommand => formatUsage ++ "\nTry 'main format --help' for help.\n\n"

/-- An error of usage as it is shown, without the line break at its end. -/
def UsageError.write (error : UsageError) : String :=
  error.hint.write ++ "Error: " ++ error.message

end GraphQLCanon.CommandLine
