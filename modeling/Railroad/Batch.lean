import Railroad.Diagram
import Railroad.Json.Encoding
import Railroad.Log
import Railroad.Rail
import Railroad.Rule.Parser
import Railroad.Sink
import Railroad.Text.Utf8

/-!
# Rendering a batch of files

Each file of a batch holds a rule, which is rendered and written out.  A file that
cannot be read or does not hold a rule is reported and passed over; only an output
that refuses a text ends the batch.

Main definitions:

- Definition {lit}`Batch.convert`: the rendered rule of one file.
- Definition {lit}`Batch.run`: dealing with all files in order.
-/

namespace Railroad.Batch

/-- What rules are rendered to. -/
inductive Mode where
  /-- Calls that draw a diagram. -/
  | diagram
  /-- Rail text. -/
  | rail
  /-- The tree as JSON. -/
  | tree
deriving DecidableEq, Repr, Inhabited

/-- A rule as rendered in some mode. -/
def render (mode : Mode) (rule : Rule) : Rendering :=
  match mode with
  | .diagram => rule.diagram
  | .rail => rule.rail
  | .tree => .ofText (rule.json .pretty)

/-! ## One file -/

/-- Reads the rule of a file, and tells what happened on the way. -/
def load (source : FileSource) (path : String) :
    Except Failure (Option Rule) × List Log.Record :=
  match source path with
  | .error reason => (.error (.unreadable path reason), [])
  | .ok bytes =>
    let records := if Text.isUtf8 bytes then [] else [.repaired path]
    match Rule.parse (Text.lossy bytes) with
    | .error error => (.error (.rejected path error), records)
    | .ok rule => (.ok rule, records)

/-- Renders the rule of a file, and tells what happened on the way.  There is no
text if there is no rule. -/
def convert (mode : Mode) (source : FileSource) (path : String) :
    Except Failure (Option String) × List Log.Record :=
  match load source path with
  | (.error failure, records) => (.error failure, records)
  | (.ok none, records) => (.ok none, records)
  | (.ok (some rule), records) =>
    let rendering := render mode rule
    (.ok (some rendering.text),
      records ++ .found path rule.name :: rendering.diagnostics.map .unrendered)

/-! ## All files -/

/-- What has come of the files so far: how many were rendered and how many held no
rule, the failures, and the log. -/
structure Summary where
  rendered : Nat
  skipped : Nat
  failures : List Failure
  log : List Log.Record
deriving DecidableEq, Repr, Inhabited

/-- The summary of no files. -/
def Summary.empty : Summary :=
  ⟨0, 0, [], []⟩

/-- A run that has dealt with some files: what came of them, and the output. -/
structure Progress where
  summary : Summary
  sink : Sink
deriving DecidableEq, Repr, Inhabited

/-- The run that has not dealt with any file. -/
def Progress.start (sink : Sink) : Progress :=
  ⟨.empty, sink⟩

/-- A run that has ended early, as the output refused a text, and the reason of the
output. -/
structure Stop extends Progress where
  reason : WriteFailure
deriving DecidableEq, Repr, Inhabited

/-- Deals with one more file.  If the output refuses the text, that is an error. -/
def advance (mode : Mode) (source : FileSource) (p : Progress) (path : String) :
    Except Stop Progress :=
  let (outcome, records) := convert mode source path
  let log := p.summary.log ++ records
  match outcome with
  | .ok (some text) =>
    match p.sink.writeLine text with
    | .ok sink => .ok ⟨{ p.summary with rendered := p.summary.rendered + 1, log := log }, sink⟩
    | .error refusal => .error ⟨⟨{ p.summary with log := log }, refusal.sink⟩, refusal.reason⟩
  | .ok none =>
    .ok { p with summary := { p.summary with
      skipped := p.summary.skipped + 1
      log := log ++ [.nothingFound path] } }
  | .error failure =>
    .ok { p with summary := { p.summary with
      failures := p.summary.failures ++ [failure]
      log := log ++ [.failed failure] } }

/-- Deals with files in order. -/
def run (mode : Mode) (source : FileSource) (p : Progress) :
    List String → Except Stop Progress
  | [] => .ok p
  | path :: paths =>
    match advance mode source p path with
    | .ok p => run mode source p paths
    | .error stop => .error stop

end Railroad.Batch
