import Railroad.Diagram
import Railroad.Proofs.NormalForm

/-!
# The texts of diagram calls

A call is drawn for each node that is neither a group nor an empty sequence.  Its text is a
fixed opening, the calls for its children with commas between them, and a parenthesis.

Main definitions:

- Definition {lit}`Node.calls`: the calls that draw a tree, as characters.
- Definition {lit}`Node.ungrouped`: a tree whose groups are taken away.

Main results:

- Theorem {lit}`Node.calls_call`: the text of a call by its parts.
- Theorem {lit}`Node.diagram_ungrouped`: groups do not show in diagrams.
-/

namespace Railroad

/-! ## Calls with arguments -/

namespace Kind

/-- Whether nodes of this kind are drawn as calls with their children as arguments. -/
def isCall : Kind → Bool
  | sequence | choice | choiceRight | choiceLeft | loop => true
  | _ => false

/-- The text of such a call in front of its arguments. -/
def opening : Kind → String
  | sequence => "Sequence ("
  | choice => "Choice (0, "
  | choiceRight => "Optional ("
  | choiceLeft => "Optional ( "
  | loop => "OneOrMore ("
  | _ => ""

/-- What follows the closing parenthesis of such a call. -/
def gap : Kind → String
  | choiceRight => " "
  | _ => ""

end Kind

namespace Node

/-- The calls that draw a tree, as characters. -/
def calls (node : Node) : List Char :=
  node.diagram.text.toList

/-- The calls for further arguments, with a comma in front of each. -/
def furtherCalls (nodes : List Node) : List Char :=
  nodes.flatMap fun node => ',' :: ' ' :: node.calls

/-- The calls for a list of arguments. -/
theorem toList_text_join (node : Node) (nodes : List Node) :
    (Rendering.join ", " (diagramAll (node :: nodes))).text.toList =
      node.calls ++ furtherCalls nodes := by
  rw [diagramAll_eq_map]
  induction nodes generalizing node with
  | nil => simp [Rendering.join, furtherCalls, calls]
  | cons next nodes ih =>
    have hjoin := ih next
    rw [List.map_cons] at hjoin
    rw [List.map_cons, List.map_cons, Rendering.join, Rendering.text_append,
      Rendering.text_append, String.toList_append, String.toList_append, hjoin]
    simp [furtherCalls, calls, Rendering.ofText]

/-- The text of a call by its parts. -/
theorem calls_call {kind : Kind} (h : kind.isCall) (value : String) (node : Node)
    (nodes : List Node) :
    calls ⟨kind, value, node :: nodes⟩ =
      kind.opening.toList ++
        (node.calls ++ (furtherCalls nodes ++ ')' :: kind.gap.toList)) := by
  have hjoin := toList_text_join node nodes
  rw [diagramAll] at hjoin
  cases kind <;>
    simp_all [Kind.isCall, calls, diagram, diagramAll, callIfAny, Rendering.between, Kind.opening,
      Kind.gap]

theorem calls_remark (value : String) :
    calls ⟨.remark, value, []⟩ = "Comment ('".toList ++ (value.toList ++ ['\'', ')']) := by
  simp [calls, diagram, diagramAll, Rendering.join, Rendering.between, Rendering.empty]

theorem calls_terminal (value : String) : calls ⟨.terminal, value, []⟩ = value.toList := by
  simp [calls, diagram, Rendering.ofText]

theorem calls_nonTerminal (value : String) :
    calls ⟨.nonTerminal, value, []⟩ =
      "NonTerminal('".toList ++ (value.toList ++ ['\'', ')']) := by
  simp [calls, diagram, Rendering.ofText]

/-- A group is drawn as what is inside of it. -/
theorem calls_group (inner : Node) : calls ⟨.group, "", [inner]⟩ = inner.calls := rfl

end Node

/-- The statement that draws a rule, as characters. -/
theorem Rule.toList_diagram (rule : Rule) :
    rule.diagram.text.toList =
      "ComplexDiagram(\n\t".toList ++ (rule.root.calls ++ "\n).addTo()\n".toList) := by
  simp [diagram, Rendering.between, Node.calls]

/-! ## Groups -/

namespace Node

/-- A node that draws nothing. -/
def nothing : Node :=
  container .group

/-- The node with some children, but the child of a group for the group itself, and
nothing for an empty sequence. -/
def collapse (kind : Kind) (value : String) (children : List Node) : Node :=
  match kind, children with
  | .group, [child] => child
  | .sequence, [] => nothing
  | _, _ => ⟨kind, value, children⟩

mutual

/-- The tree without its groups: the child of a group takes the place of the group, while
groups without children, and empty sequences, are nothing. -/
def ungrouped : Node → Node
  | ⟨kind, value, children⟩ => collapse kind value (ungroupedAll children)

/-- Trees without their groups. -/
def ungroupedAll : List Node → List Node
  | [] => []
  | node :: nodes => node.ungrouped :: ungroupedAll nodes

end

theorem ungroupedAll_eq_map (nodes : List Node) : ungroupedAll nodes = nodes.map ungrouped := by
  induction nodes with
  | nil => rfl
  | cons node nodes ih => rw [ungroupedAll, ih, List.map_cons]

/-- A node is drawn by its kind, its value, and how its children are drawn. -/
theorem diagram_congr {kind : Kind} {value : String} {nodes nodes' : List Node}
    (h : diagramAll nodes = diagramAll nodes') :
    diagram ⟨kind, value, nodes⟩ = diagram ⟨kind, value, nodes'⟩ := by
  cases kind <;> simp [diagram, h]

theorem calls_nothing : nothing.calls = [] := rfl

/-- A node is drawn alike whether it collapses or not. -/
theorem diagram_collapse (kind : Kind) (value : String) (children : List Node) :
    (collapse kind value children).diagram = diagram ⟨kind, value, children⟩ := by
  unfold collapse
  split
  · simp [diagram, diagramAll, Rendering.join]
  · simp [nothing, container, diagram, diagramAll, Rendering.join, callIfAny]
  · rfl

/-- Groups do not show in diagrams. -/
theorem diagram_ungrouped (node : Node) : node.ungrouped.diagram = node.diagram := by
  induction node using childrenInduction with
  | node node ih =>
    rcases node with ⟨kind, value, nodes⟩
    rw [ungrouped, diagram_collapse]
    apply diagram_congr
    rw [ungroupedAll_eq_map, diagramAll_eq_map, diagramAll_eq_map, List.map_map]
    exact List.map_congr_left ih

end Node

end Railroad
