/-!
# Trees of rules

The body of a rule is a tree.  Leaves are the names and texts that a diagram
shows; all other nodes say how their children are laid out.  Nothing ties a kind
to having a value or children, so that every tree that can be written down can
also be stored and read back.

Main definitions:

- Definition {lit}`Kind`: what a node stands for.
- Definition {lit}`Node`: a tree.
- Definition {lit}`Node.add`: adding a child, where a sequence added to a
  sequence, or a choice added to a choice, gives its children away.
- Definition {lit}`Node.nesting`: how many groups and loops stand above each
  other.
-/

namespace Railroad

/-! ## Kinds of nodes -/

/-- What a node of a rule's tree stands for.  In a `choiceRight` the empty branch
comes last, in a `choiceLeft` it comes first. -/
inductive Kind where
  | sequence
  | choice
  | choiceRight
  | choiceLeft
  | choiceSingle
  | loop
  | remark
  | terminal
  | nonTerminal
  | group
deriving DecidableEq, Repr, Inhabited

namespace Kind

/-- All kinds, in the order in which messages list them. -/
def all : List Kind :=
  [sequence, choice, choiceRight, choiceLeft, choiceSingle, loop, remark, terminal,
    nonTerminal, group]

/-- The written name of a kind. -/
def name : Kind → String
  | sequence => "sequence"
  | choice => "choice"
  | choiceRight => "choice_right"
  | choiceLeft => "choice_left"
  | choiceSingle => "choice_single"
  | loop => "loop"
  | remark => "annotation"
  | terminal => "terminal"
  | nonTerminal => "non_terminal"
  | group => "group"

/-- The kind with a written name. -/
def ofName? (name : String) : Option Kind :=
  all.find? fun kind => kind.name == name

/-- Whether nodes of this kind dissolve when added to a node of the same kind. -/
def flattens : Kind → Bool
  | sequence | choice => true
  | _ => false

/-- Whether nodes of this kind count towards the nesting of a tree. -/
def nests : Kind → Bool
  | group | loop => true
  | _ => false

/-- Reading the name of a kind gives the kind back. -/
@[simp] theorem ofName?_name (kind : Kind) : ofName? kind.name = some kind := by
  cases kind <;> decide

end Kind

/-! ## Trees -/

/-- A tree: what its root stands for, the text of a leaf, and the children of
everything else. -/
structure Node where
  kind : Kind
  value : String
  children : List Node
deriving Repr, Inhabited

namespace Node

mutual

/-- Decides whether two trees are the same. -/
def decideEq : (m n : Node) → Decidable (m = n)
  | ⟨kind, value, children⟩, ⟨kind', value', children'⟩ =>
    match instDecidableEqKind kind kind', instDecidableEqString value value',
        decideEqAll children children' with
    | isTrue hkind, isTrue hvalue, isTrue hchildren => isTrue (by rw [hkind, hvalue, hchildren])
    | isFalse hkind, _, _ => isFalse (by simp [hkind])
    | _, isFalse hvalue, _ => isFalse (by simp [hvalue])
    | _, _, isFalse hchildren => isFalse (by simp [hchildren])

/-- Decides whether two lists of trees are the same. -/
def decideEqAll : (ms ns : List Node) → Decidable (ms = ns)
  | [], [] => isTrue rfl
  | [], _ :: _ => isFalse (by simp)
  | _ :: _, [] => isFalse (by simp)
  | m :: ms, n :: ns =>
    match decideEq m n, decideEqAll ms ns with
    | isTrue hhead, isTrue htail => isTrue (by rw [hhead, htail])
    | isFalse hhead, _ => isFalse (by simp [hhead])
    | _, isFalse htail => isFalse (by simp [htail])

end

instance : DecidableEq Node := decideEq

/-- A node with a text and no children. -/
def leaf (kind : Kind) (value : String) : Node :=
  ⟨kind, value, []⟩

/-- A node with neither text nor children. -/
def container (kind : Kind) : Node :=
  ⟨kind, "", []⟩

/-- A quoted text that stands for itself. -/
def terminal (value : String) : Node :=
  leaf .terminal value

/-- The name of another rule. -/
def nonTerminal (value : String) : Node :=
  leaf .nonTerminal value

/-- A remark in a diagram. -/
def remark (value : String) : Node :=
  leaf .remark value

/-- The node with one more child behind its children.  If both are sequences, or
both are choices, the children of the new one take its place. -/
def add (node child : Node) : Node :=
  if child.kind = node.kind ∧ node.kind.flattens then
    { node with children := node.children ++ child.children }
  else
    { node with children := node.children ++ [child] }

/-- The node with two more children. -/
def addPair (node first second : Node) : Node :=
  (node.add first).add second

/-- A container to which nodes are added from left to right. -/
def ofList (kind : Kind) (nodes : List Node) : Node :=
  nodes.foldl add (container kind)

/-- A container to which one node is added. -/
def wrap (kind : Kind) (child : Node) : Node :=
  (container kind).add child

/-- The number of children. -/
def size (node : Node) : Nat :=
  node.children.length

/-- Whether the root is a sequence. -/
def isSequence (node : Node) : Bool :=
  node.kind == .sequence

/-- Whether the root is a choice. -/
def isChoice (node : Node) : Bool :=
  node.kind == .choice

/-! ## Nesting -/

mutual

/-- The greatest number of groups and loops on a way from the root to a leaf. -/
def nesting : Node → Nat
  | ⟨kind, _, children⟩ => (if kind.nests then 1 else 0) + nestingAll children

/-- The greatest nesting among trees. -/
def nestingAll : List Node → Nat
  | [] => 0
  | node :: nodes => max node.nesting (nestingAll nodes)

end

/-- Wrapping keeps the child whole when its kind does not dissolve. -/
theorem wrap_eq (kind : Kind) (child : Node) (h : kind.flattens = false) :
    wrap kind child = ⟨kind, "", [child]⟩ := by
  simp [wrap, add, container, h]

end Node

end Railroad
