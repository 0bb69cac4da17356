/-!
# Paths

A path is written as components between slashes. Empty components and single dots
mean nothing; two dots lead to the directory above. Places are found by walking
the components from the working directory or from the root.
-/

namespace GraphQLCanon.CommandLine

/-- The components of a written path. -/
def pathComponents (path : String) : List String :=
  (path.toList.splitBy fun left right => left != '/' && right != '/').filterMap fun part =>
    if part = ['/'] then none else some (String.ofList part)

/-- The components that mean something. -/
def significantComponents (path : String) : List String :=
  (pathComponents path).filter (· != ".")

/-- True of paths that start at the root. -/
def isAbsolute (path : String) : Bool := path.toList.head? == some '/'

/-- The slashes in front of a path as messages show it: two where it begins with exactly two,
and otherwise one where it begins with any. -/
def leadingSlashes (path : String) : String :=
  match (path.toList.takeWhile (· == '/')).length with
  | 0 => ""
  | 2 => "//"
  | _ => "/"

/-- A path as messages show it: without empty components and single dots. -/
def normalPath (path : String) : String :=
  let shown := leadingSlashes path ++ "/".intercalate (significantComponents path)
  bif shown.isEmpty then "." else shown

/-- True of paths that can only name a directory: they end in a slash or in a
single dot. -/
def namesDirectory (path : String) : Bool :=
  path.toList.getLast? == some '/' || (pathComponents path).getLast? == some "."

/-- A place among the files: the names on the way to it from the working
directory, or from the root behind a slash. -/
abbrev Place : Type := List String

/-- The place where the walk along a path begins. -/
def startPlace (path : String) : Place :=
  if isAbsolute path then ["/"] else []

/-- The place above another one. There is nothing above the root; above the
working directory lies a directory that is known by its two dots only. -/
def Place.above (place : Place) : Place :=
  match place.getLast? with
  | none => [".."]
  | some ".." => place ++ [".."]
  | some "/" => place
  | some _ => place.dropLast

/-- True of the directories that are there without any file: the working
directory, those above it, and the root. -/
def Place.isGiven (place : Place) : Bool :=
  place.all (· == "..") || place == ["/"]

end GraphQLCanon.CommandLine
