import Railroad.Rendering
import Railroad.Rule

/-!
# Rail text

The notation in which rules are typeset.  It is also a notation in which they can
be read.  Every leaf brings a blank behind it, in addition to the separators.

Main definitions:

- Definition {lit}`Node.rail`: the rail text of a tree.
- Definition {lit}`Rule.rail`: the rail text of a rule.
-/

namespace Railroad

namespace Node

mutual

/-- The rail text of a tree.  A `choiceSingle` has none, and is reported. -/
def rail : Node → Rendering
  | ⟨kind, value, children⟩ =>
    match kind with
    | .sequence => .join " " (railAll children)
    | .choice => .join " | " (railAll children)
    | .choiceRight => .between "" (.join " " (railAll children)) "| "
    | .choiceLeft => .between "| " (.join " " (railAll children)) ""
    | .loop => .between "" (.join " " (railAll children)) "+ "
    | .remark => .ofText ("[" ++ value ++ "] ")
    | .terminal | .nonTerminal => .ofText (value ++ " ")
    | .group => .between "(" (.join " " (railAll children)) ")"
    | .choiceSingle => .report (.unexpectedKind kind)

/-- The rail texts of trees. -/
def railAll : List Node → List Rendering
  | [] => []
  | node :: nodes => node.rail :: railAll nodes

end

theorem railAll_eq_map (nodes : List Node) : railAll nodes = nodes.map rail := by
  induction nodes with
  | nil => rfl
  | cons node nodes ih => simp [railAll, ih]

end Node

/-- The rail text of a rule: its name and a colon, and on the next line, behind a
tab, its body. -/
def Rule.rail (rule : Rule) : Rendering :=
  .between (rule.name ++ " :\n\t") rule.root.rail ""

end Railroad
