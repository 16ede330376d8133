import Railroad.Rendering
import Railroad.Rule

/-!
# Diagram calls

The calls that draw a rule as a railroad diagram.  A sequence, a choice or a loop
without children draws nothing and adds nothing, while an optional branch is
drawn in any case.

Main definitions:

- Definition {lit}`Node.diagram`: the calls that draw a tree.
- Definition {lit}`Rule.diagram`: the statement that draws a rule.
-/

namespace Railroad

namespace Node

/-- The rendered arguments of a call, and the call around them if there are any. -/
def callIfAny (opening : String) (arguments : List Rendering) : Rendering :=
  match arguments with
  | [] => .empty
  | _ :: _ => .between opening (.join ", " arguments) ")"

mutual

/-- The calls that draw a tree.  A `choiceSingle` has none, and is reported. -/
def diagram : Node → Rendering
  | ⟨kind, value, children⟩ =>
    match kind with
    | .sequence => callIfAny "Sequence (" (diagramAll children)
    | .choice => callIfAny "Choice (0, " (diagramAll children)
    | .choiceRight => .between "Optional (" (.join ", " (diagramAll children)) ") "
    | .choiceLeft => .between "Optional ( " (.join ", " (diagramAll children)) ")"
    | .loop => callIfAny "OneOrMore (" (diagramAll children)
    | .remark =>
      .between ("Comment ('" ++ value ++ "')") (.join ", " (diagramAll children)) ""
    | .terminal => .ofText value
    | .nonTerminal => .ofText ("NonTerminal('" ++ value ++ "')")
    | .group => .join ", " (diagramAll children)
    | .choiceSingle => .report (.unexpectedKind kind)

/-- The calls that draw each of some trees. -/
def diagramAll : List Node → List Rendering
  | [] => []
  | node :: nodes => node.diagram :: diagramAll nodes

end

theorem diagramAll_eq_map (nodes : List Node) : diagramAll nodes = nodes.map diagram := by
  induction nodes with
  | nil => rfl
  | cons node nodes ih => simp [diagramAll, ih]

end Node

/-- The statement that draws a rule. -/
def Rule.diagram (rule : Rule) : Rendering :=
  .between "ComplexDiagram(\n\t" rule.root.diagram "\n).addTo()\n"

end Railroad
