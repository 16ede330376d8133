import Railroad.Node

/-!
# Rendered trees

Rendering a tree never fails.  What cannot be rendered adds nothing to the text
and is reported beside it.

Main definitions:

- Definition {lit}`Rendering`: a text and the reports on it.
- Definition {lit}`Rendering.join`: renderings in a row, with separators.
-/

namespace Railroad

/-- What a renderer could not render. -/
inductive Diagnostic where
  /-- A node of a kind without a rendered form. -/
  | unexpectedKind (kind : Kind)
deriving DecidableEq, Repr, Inhabited

/-- The wording of a report. -/
def Diagnostic.message : Diagnostic → String
  | unexpectedKind kind => "unexpected node type " ++ kind.name

/-- A rendered text together with reports on what is missing from it, in the
order in which it was met. -/
@[ext] structure Rendering where
  text : String
  diagnostics : List Diagnostic
deriving DecidableEq, Repr, Inhabited

namespace Rendering

/-- The rendering of nothing. -/
def empty : Rendering :=
  ⟨"", []⟩

/-- A text without reports. -/
def ofText (text : String) : Rendering :=
  ⟨text, []⟩

/-- A report without text. -/
def report (diagnostic : Diagnostic) : Rendering :=
  ⟨"", [diagnostic]⟩

/-- One rendering behind another. -/
def append (r s : Rendering) : Rendering :=
  ⟨r.text ++ s.text, r.diagnostics ++ s.diagnostics⟩

instance : Append Rendering := ⟨append⟩

/-- A rendering between two texts. -/
def between (left : String) (r : Rendering) (right : String) : Rendering :=
  ⟨left ++ r.text ++ right, r.diagnostics⟩

/-- Renderings in a row, with a separator between neighbours. -/
def join (separator : String) : List Rendering → Rendering
  | [] => empty
  | [r] => r
  | r :: s :: rest => r ++ ofText separator ++ join separator (s :: rest)

/-- Whether everything was rendered. -/
def isClean (r : Rendering) : Bool :=
  r.diagnostics.isEmpty

@[simp] theorem text_append (r s : Rendering) : (r ++ s).text = r.text ++ s.text := rfl

@[simp] theorem diagnostics_append (r s : Rendering) :
    (r ++ s).diagnostics = r.diagnostics ++ s.diagnostics := rfl

/-- The reports on renderings in a row are those on each of them. -/
theorem diagnostics_join (separator : String) (rs : List Rendering) :
    (join separator rs).diagnostics = rs.flatMap diagnostics := by
  fun_induction join separator rs with
  | case1 => rfl
  | case2 r => simp
  | case3 r s rest ih => simp [ofText, ih]

end Rendering

end Railroad
