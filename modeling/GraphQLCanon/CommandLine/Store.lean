import GraphQLCanon.CommandLine.Path

/-!
# Files

The files that a run can see, with their contents, and the directories that are
known. A file is written only where it was found before.
-/

namespace GraphQLCanon.CommandLine

/-- Files with their contents, and directories. -/
structure Store where
  files : List (Place × String)
  directories : List Place
  deriving DecidableEq, Repr

/-- What a path leads to. -/
inductive Entry
  | missing
  | directory
  | file (content : String)
  deriving DecidableEq, Repr

namespace Store

/-- A store without files. -/
def empty : Store := ⟨[], []⟩

/-- True of the places of directories. -/
def isDirectory (store : Store) (place : Place) : Bool :=
  place.isGiven || store.directories.contains place

/-- The place behind one more component. -/
def step (place : Place) (component : String) : Place :=
  if component = ".." then place.above else place ++ [component]

/-- Walks components from a place. Every place on the way must be a directory. -/
def walk? (store : Store) (place : Place) : List String → Option Place
  | [] => some place
  | component :: others =>
    if store.isDirectory place then store.walk? (step place component) others else none

/-- The place that a path leads to, if the way to it exists. -/
def resolve? (store : Store) (path : String) : Option Place :=
  if path.isEmpty then none
  else
    (store.walk? (startPlace path) (significantComponents path)).filter fun place =>
      !namesDirectory path || store.isDirectory place

/-- The content of the file at a place. -/
def contentAt? (store : Store) (place : Place) : Option String :=
  (store.files.find? fun file => file.1 == place).map Prod.snd

/-- What a path leads to. -/
def entry (store : Store) (path : String) : Entry :=
  match store.resolve? path with
  | none => .missing
  | some place =>
    if store.isDirectory place then .directory
    else
      match store.contentAt? place with
      | some content => .file content
      | none => .missing

/-- The store after the file of a path got another content. A path that leads to
no file changes nothing. -/
def write (store : Store) (path content : String) : Store :=
  match store.resolve? path with
  | none => store
  | some place =>
    { store with
      files := store.files.map fun file => if file.1 = place then (place, content) else file }

/-- The store with all places on the way along some components as directories,
and the place at the end. -/
def enter (store : Store) (place : Place) : List String → Store × Place
  | [] => (store, place)
  | component :: others =>
    let directories :=
      if store.isDirectory place then store.directories else place :: store.directories
    enter { store with directories := directories } (step place component) others

/-- The store with one more file, and the directories on the way to it. -/
def addFile (store : Store) (path content : String) : Store :=
  let (entered, place) := store.enter (startPlace path) (significantComponents path)
  { entered with files := (place, content) :: entered.files.filter fun file => file.1 != place }

/-- The store with one more directory, and the directories on the way to it. -/
def addDirectory (store : Store) (path : String) : Store :=
  let (entered, place) := store.enter (startPlace path) (significantComponents path)
  { entered with directories := place :: entered.directories }

/-- The store of some files, given by their paths and contents. -/
def ofFiles (files : List (String × String)) : Store :=
  files.foldl (fun store file => store.addFile file.1 file.2) empty

end Store

end GraphQLCanon.CommandLine
