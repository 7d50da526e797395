import Wireform.Command.Run

/-
  Wireform command line: reads the disk where the arguments point to, runs the command, and writes
  what it gives.
-/

open Wireform

/-- The text of a file that can be read. -/
def readInput (path : String) : IO (Option (String × String)) := do
  try return some (path, ← IO.FS.readFile path)
  catch _ => return none

/-- A path that leads to a directory. -/
def readDirectory (path : String) : IO (Option String) := do
  return if ← ((← IO.currentDir) / path).isDir then some path else none

/-- The part of the disk that the paths point to. -/
def readDisk (paths : List String) : IO Disk := do
  let files ← paths.filterMapM readInput
  let directories ← (paths ++ paths.map DiskPath.directory).filterMapM readDirectory
  return ⟨files, directories⟩

def writeOutput (file : String × String) : IO Unit := do
  IO.FS.createDirAll (DiskPath.directory file.1)
  IO.FS.writeFile file.1 file.2

def main (args : List String) : IO UInt32 := do
  let disk ← readDisk (Command.paths args)
  let outcome := Command.run disk args
  outcome.written.forM writeOutput
  IO.print outcome.output
  IO.eprint outcome.errors
  match outcome.ending with
  | .code n => return UInt32.ofNat n
  | .broken e =>
    IO.eprintln e.message
    return 1
