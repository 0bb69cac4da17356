import GraphQLCanon.Options.Basic

/-!
# Options of the command line

The program has options of its own, which stand in front of the command, and the
`format` command has flags and widths. Every option has a long name behind two
dashes; some flags have a short one too.
-/

namespace GraphQLCanon.CommandLine

/-- The options of the program itself. -/
inductive ProgramFlag
  | version
  | help
  deriving DecidableEq, Repr

/-- The options of the program itself. -/
def ProgramFlag.all : List ProgramFlag := [version, help]

/-- How an option of the program is written. -/
def ProgramFlag.long : ProgramFlag → String
  | version => "--version"
  | help => "--help"

/-- The option of the program with a long name. -/
def ProgramFlag.ofLong? (name : String) : Option ProgramFlag :=
  all.find? fun flag => flag.long == name

/-- The flags of the command. -/
inductive Flag
  | write
  | check
  | verbose
  | help
  deriving DecidableEq, Repr

/-- The flags of the command. -/
def Flag.all : List Flag := [write, check, verbose, help]

/-- How a flag is written. -/
def Flag.long : Flag → String
  | write => "--write"
  | check => "--check"
  | verbose => "--verbose"
  | help => "--help"

/-- The flag with a long name. -/
def Flag.ofLong? (name : String) : Option Flag :=
  all.find? fun flag => flag.long == name

/-- The flag with a short name. -/
def Flag.ofShort? : Char → Option Flag
  | 'w' => some .write
  | 'v' => some .verbose
  | _ => none

/-- The widths that can be set. -/
inductive Width
  | indent
  | maxWidth
  deriving DecidableEq, Repr

/-- The widths that can be set. -/
def Width.all : List Width := [indent, maxWidth]

/-- How a width is written. -/
def Width.long : Width → String
  | indent => "--indent"
  | maxWidth => "--max-width"

/-- The width with a long name. -/
def Width.ofLong? (name : String) : Option Width :=
  all.find? fun width => width.long == name

/-- The least value of a width. -/
def Width.least : Width → Nat
  | indent => 0
  | maxWidth => 1

/-- The value of a width that is not set. -/
def Width.standard : (width : Width) → { n : Nat // width.least ≤ n }
  | indent => ⟨Options.standard.indentWidth, by decide⟩
  | maxWidth => ⟨Options.standard.maxWidth, by decide⟩

/-- The long names of the options of the program. -/
def programOptions : List String := ProgramFlag.all.map ProgramFlag.long

/-- The long names of the options of the command. -/
def commandOptions : List String := Flag.all.map Flag.long ++ Width.all.map Width.long

/-- The commands of the program. -/
def commands : List String := ["format"]

end GraphQLCanon.CommandLine
