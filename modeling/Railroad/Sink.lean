import Railroad.Text.Utf8

/-!
# Outputs with a limit

An output takes bytes until it has no room left.  A text that does not fit is taken
as far as it does, and then the output refuses.

Main definitions:

- Definition {lit}`Sink.write`: offering bytes to an output.
- Definition {lit}`Sink.writeLine`: offering a text and the end of its line.
-/

namespace Railroad

/-- Why an output refuses bytes. -/
inductive WriteFailure where
  /-- Nobody reads them any more. -/
  | brokenPipe
  /-- There is some other reason. -/
  | other
deriving DecidableEq, Repr, Inhabited

/-- How many bytes an output still takes, and why it refuses those behind them. -/
structure Sink.Limit where
  room : Nat
  reason : WriteFailure
deriving DecidableEq, Repr, Inhabited

/-- An output: its limit, if there is one, and the bytes that it has taken. -/
structure Sink where
  limit : Option Sink.Limit
  taken : List UInt8
deriving DecidableEq, Repr, Inhabited

namespace Sink

/-- An output that takes everything. -/
def unlimited : Sink :=
  ⟨none, []⟩

/-- An output that takes `n` bytes and then breaks. -/
def limited (n : Nat) : Sink :=
  ⟨some ⟨n, .brokenPipe⟩, []⟩

/-- An output that has refused bytes, and its reason. -/
structure Refusal where
  reason : WriteFailure
  sink : Sink
deriving DecidableEq, Repr, Inhabited

/-- Offers bytes to an output, and gives the output behind them.  If it refuses
some of them, that is an error. -/
def write (sink : Sink) (bytes : List UInt8) : Except Refusal Sink :=
  match sink.limit with
  | none => .ok ⟨none, sink.taken ++ bytes⟩
  | some limit =>
    if bytes.length ≤ limit.room then
      .ok ⟨some { limit with room := limit.room - bytes.length }, sink.taken ++ bytes⟩
    else
      .error ⟨limit.reason,
        some { limit with room := 0 }, sink.taken ++ bytes.take limit.room⟩

/-- Offers a text to an output, and then the end of its line. -/
def writeLine (sink : Sink) (text : String) : Except Refusal Sink := do
  let sink ← sink.write (Text.utf8 text)
  sink.write (Text.utf8 "\n")

end Sink

end Railroad
