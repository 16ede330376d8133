import Railroad.Program

/-!
# The executable

Reads the files that the command line names, runs the program on them, and prints
what it leaves.
-/

namespace Railroad

/-- Reads a file. -/
def readFile (path : String) : IO (Except ReadFailure (List UInt8)) := do
  match ← (IO.FS.readBinFile path).toBaseIO with
  | .ok bytes => return .ok bytes.toList
  | .error (.noFileOrDirectory ..) => return .error .notFound
  | .error _ => return .error .other

/-- Reads the files of a command line. -/
def readFiles (args : List String) : IO (List (String × Except ReadFailure (List UInt8))) :=
  match CommandLine.ofArgs args with
  | .ok line => line.files.mapM fun path => return (path, ← readFile path)
  | .error _ => return []

end Railroad

open Railroad in
/-- Runs the program. -/
def main (args : List String) : IO UInt32 := do
  let args := "railroad" :: args
  let files ← readFiles args
  let source : FileSource := fun path => (files.lookup path).getD (.error .notFound)
  let outcome := Program.run source .unlimited args
  let output ← IO.getStdout
  output.write ⟨outcome.output.toArray⟩
  output.flush
  (← IO.getStderr).putStr outcome.log
  return outcome.exitCode.toUInt32
