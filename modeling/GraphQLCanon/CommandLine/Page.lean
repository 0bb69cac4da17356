/-!
# Pages

What the program shows about itself when it is asked for its version or for help.
-/

namespace GraphQLCanon.CommandLine

/-- A text about the program or its command. -/
inductive Page
  | version
  | program
  | formatCommand
  deriving DecidableEq, Repr

/-- The usage of the program. -/
def programUsage : String := "Usage: main [OPTIONS] COMMAND [ARGS]..."

/-- The usage of the command. -/
def formatUsage : String := "Usage: main format [OPTIONS] FILES..."

/-- The lines of a page. -/
def Page.lines : Page → List String
  | version => ["main, version 0.1.0"]
  | program =>
    [programUsage, "",
      "  Canonical formatter for GraphQL queries and schemas.", "",
      "Options:",
      "  --version  Show the version and exit.",
      "  --help     Show this message and exit.", "",
      "Commands:",
      "  format  Format GraphQL query or schema files."]
  | formatCommand =>
    [formatUsage, "",
      "  Format GraphQL query or schema files.", "",
      "Options:",
      "  -w, --write                Write the formatted output back to the file.",
      "  --check                    Exit with status 1 and print a diff if a file is",
      "                             not formatted.",
      "  --indent INTEGER RANGE     Spaces per indentation level.  [default: 2; x>=0]",
      "  --max-width INTEGER RANGE  Column after which argument lists are wrapped.",
      "                             [default: 80; x>=1]",
      "  -v, --verbose              Enable verbose output.",
      "  --help                     Show this message and exit."]

/-- A page as it is shown, without the line break at its end. -/
def Page.write (page : Page) : String := "\n".intercalate page.lines

end GraphQLCanon.CommandLine
