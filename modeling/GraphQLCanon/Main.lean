import GraphQLCanon.CommandLine.Run

/-!
# The program

Loads the files that the arguments name, does the run on them, writes back the
files that it changed, and prints what it said. Everything is decided by the run.
-/

namespace GraphQLCanon.CommandLine

/-- The store with what a path leads to, if it leads anywhere. A directory can be
opened but not read. -/
def Store.load (store : Store) (path : String) : IO Store := do
  match ← (IO.FS.Handle.mk path .read).toBaseIO with
  | .error _ => return store
  | .ok handle =>
    match ← handle.readToEnd.toBaseIO with
    | .ok content => return store.addFile path content
    | .error _ => return store.addDirectory path

/-- Writes the file of a path if its content has changed. -/
def Store.save (before after : Store) (path : String) : IO Unit := do
  match after.entry path with
  | .file content =>
    if before.entry path = after.entry path then return ()
    IO.FS.writeFile path content
  | _ => return ()

end GraphQLCanon.CommandLine

/-- Runs the program on its arguments, in colour where a terminal reads along. -/
def main (arguments : List String) : IO UInt32 := do
  let output ← IO.getStdout
  let errors ← IO.getStderr
  let store ← arguments.foldlM GraphQLCanon.CommandLine.Store.load
    GraphQLCanon.CommandLine.Store.empty
  let outcome := GraphQLCanon.CommandLine.run store arguments (← output.isTty)
  arguments.forM (store.save outcome.store)
  output.putStr outcome.output
  errors.putStr outcome.errors
  return outcome.status.toUInt32
