import Railroad.CommandLine

/-!
# The program

From arguments and files to what is printed: the rendered rules on one output, the
log on another.

Main definitions:

- Definition {lit}`Program.run`: a whole run of the program.
-/

namespace Railroad.Program

/-- What a run leaves: its exit code, its output, and the text of its log. -/
structure Outcome where
  exitCode : Nat
  output : List UInt8
  log : String
deriving DecidableEq, Repr, Inhabited

/-- What the program tells about its command line. -/
def usage : String :=
  "Usage: railroad [--latex | --ast] [--quiet | --verbose] [FILES]...\n"

/-- The records of a run over all files. -/
def records (summary : Batch.Summary) : List Log.Record :=
  summary.log ++ [.finished summary.rendered summary.skipped summary.failures.length]

/-- Runs the program on a command line that has been taken. -/
def runLine (source : FileSource) (sink : Sink) (line : CommandLine) : Outcome :=
  match Batch.run line.mode source (.start sink) line.files with
  | .ok p => ⟨0, p.sink.taken, Log.text line.logLevel (records p.summary)⟩
  | .error p => ⟨1, p.sink.taken, Log.text line.logLevel p.summary.log⟩

/-- Runs the program on arguments behind a program name.  Failing files leave the
exit code alone; arguments that cannot be taken do not. -/
def run (source : FileSource) (sink : Sink) (args : List String) : Outcome :=
  match CommandLine.ofArgs args with
  | .ok line => runLine source sink line
  | .error .help => ⟨0, Text.utf8 usage, ""⟩
  | .error _ => ⟨2, [], usage⟩

end Railroad.Program
