import ScriptFront.CommandLine

/-!
# The program

Reads the files that the arguments name, and leaves the rest to `CommandLine.run`.
-/

open ScriptFront

/-- The bytes of a file, if it can be read. -/
def readBytes? (path : String) : IO (Option ByteArray) := do
  try
    let bytes ← IO.FS.readBinFile path
    return some bytes
  catch _ => return none

/-- Run the command line. -/
def main (args : List String) : IO UInt32 := do
  let files ← (CommandLine.paths args).mapM fun path ↦ do return (path, ← readBytes? path)
  let outcome := CommandLine.run args fun path ↦ CommandLine.contents (files.lookup path).join
  IO.print outcome.output
  IO.eprint outcome.errors
  return outcome.code.toUInt32
