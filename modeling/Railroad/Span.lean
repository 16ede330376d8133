/-!
# Byte spans

Tokens and errors point into a source text by a range of bytes of its UTF-8
form.  A span is only a pair of offsets: it knows nothing of the text, and the
pair may stand in the wrong order.

Main definitions:

- Definition {lit}`Span.merge`: the smallest range around two spans.
- Definition {lit}`Span.text`: the written form `start..stop`.
-/

namespace Railroad

/-- A range of bytes, from `start` up to and without `stop`. -/
structure Span where
  start : Nat
  stop : Nat
deriving DecidableEq, Repr, Inhabited

namespace Span

/-- The empty span behind the last byte of a text of `size` bytes. -/
def atEnd (size : Nat) : Span :=
  ⟨size, size⟩

/-- The range from the earlier start to the later stop of two spans. -/
def merge (s t : Span) : Span :=
  ⟨min s.start t.start, max s.stop t.stop⟩

/-- The same range in a text that stands `k` bytes further back. -/
def shift (k : Nat) (s : Span) : Span :=
  ⟨s.start + k, s.stop + k⟩

/-- The written form of a span in messages. -/
def text (s : Span) : String :=
  toString s.start ++ ".." ++ toString s.stop

@[simp] theorem start_merge (s t : Span) : (s.merge t).start = min s.start t.start := rfl

@[simp] theorem stop_merge (s t : Span) : (s.merge t).stop = max s.stop t.stop := rfl

end Span

end Railroad
