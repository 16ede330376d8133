import Railroad.Proofs.Diagram.Calls
import Railroad.Proofs.Rail.RoundTrip
import Mathlib.Data.List.Forall2

/-!
# The arguments of diagram calls

A call has one argument for each child of its node, which is the text of that child.  Groups
are not drawn, so that the text of a group is the text of what stands inside of it.  That may
be nothing, namely where a group has no children, and then the argument is empty.  In the tree
of a rule that is read, nothing else draws nothing, however groups, loops and optional branches
stand inside of each other.

Main definitions:

- Definition {lit}`Node.Subtree`: the trees inside of a tree.
- Definition {lit}`Node.Wraps`: a tree inside of groups.
- Definition {lit}`Node.Hollow`: groups around nothing.
- Definition {lit}`Node.Fills`: the argument of a call in the place of a child.
- Definition {lit}`Node.Takes`: the arguments of a call, one for each child.

Main results:

- Theorem {lit}`Node.Normal.calls_eq_nil_iff`: the trees in normal form that draw nothing
  are the hollow ones.
- Theorem {lit}`Node.Normal.takes_calls`: the arguments of a call are the texts of the
  children.
- Theorem {lit}`Rule.takes_arguments`: the arguments of all calls that draw a rule.
- Theorem {lit}`Rule.calls_argument_empty_group`: what an empty group gives in each kind of call.
-/

namespace Railroad

namespace Node

/-! ## Trees inside of trees -/

/-- The second tree is the first one or stands inside of it. -/
inductive Subtree : Node → Node → Prop where
  | root (node : Node) : Subtree node node
  | child {node child below : Node} (hmem : child ∈ node.children) (h : Subtree child below) :
      Subtree node below

/-- The second tree is the first one, or there are but groups around it. -/
inductive Wraps : Node → Node → Prop where
  | bare (node : Node) : Wraps node node
  | group {inner core : Node} (h : Wraps inner core) : Wraps ⟨.group, "", [inner]⟩ core

/-- A group without children, perhaps with other groups around it. -/
def Hollow (node : Node) : Prop :=
  node.Wraps nothing

/-- Groups around a tree do not show. -/
theorem Wraps.calls_eq {node core : Node} (h : node.Wraps core) : node.calls = core.calls := by
  induction h with
  | bare node => rfl
  | group h ih => rw [calls_group, ih]

/-- What is in normal form has children in normal form. -/
theorem Normal.of_mem_children {layer : Layer} {node child : Node} (h : Normal layer node)
    (hmem : child ∈ node.children) : ∃ layer', Normal layer' child := by
  induction h with
  | name h | terminal h | remark hbracket htrim | emptyGroup => cases hmem
  | group h | loop h | right h | left h =>
    rw [List.mem_singleton] at hmem
    subst hmem
    exact ⟨_, h⟩
  | sequence hlength h | choice hlength h => exact ⟨_, h child hmem⟩
  | single h ih | only h ih | notRight h ih | notLeft h ih => exact ih hmem

/-- Trees below one in normal form are in normal form. -/
theorem Normal.of_subtree {layer : Layer} {node below : Node} (h : Normal layer node)
    (hbelow : node.Subtree below) : ∃ layer', Normal layer' below := by
  induction hbelow generalizing layer with
  | root node => exact ⟨layer, h⟩
  | child hmem hbelow ih =>
    obtain ⟨layer', hchild⟩ := h.of_mem_children hmem
    exact ih hchild

/-! ## Trees that draw something -/

/-- A call with an argument is drawn, and stands in no group. -/
theorem exists_core_of_isCall {kind : Kind} (hcall : kind.isCall) (value : String)
    {nodes : List Node} (hne : nodes ≠ []) :
    ∃ core, Wraps ⟨kind, value, nodes⟩ core ∧ core.kind ≠ .group ∧ core.calls ≠ [] := by
  refine ⟨_, .bare _, ?_, ?_⟩
  · rintro rfl
    cases hcall
  · match nodes with
    | first :: rest =>
      rw [calls_call hcall]
      simp

/-- A tree in normal form is hollow, or there are but groups around a tree that draws
something. -/
theorem Normal.hollow_or_exists_core {layer : Layer} {node : Node} (h : Normal layer node) :
    node.Hollow ∨ ∃ core, node.Wraps core ∧ core.kind ≠ .group ∧ core.calls ≠ [] := by
  induction h with
  | name h => exact .inr ⟨_, .bare _, by simp, by simp [calls_nonTerminal]⟩
  | terminal h =>
    rcases h with ⟨quote, inner, -, hvalue, -⟩
    exact .inr ⟨_, .bare _, by simp, by simp [calls_terminal, hvalue]⟩
  | remark hbracket htrim => exact .inr ⟨_, .bare _, by simp, by simp [calls_remark]⟩
  | emptyGroup => exact .inl (.bare nothing)
  | group h ih =>
    rcases ih with hhollow | ⟨core, hcore, hkind, hcalls⟩
    · exact .inl (.group hhollow)
    · exact .inr ⟨core, .group hcore, hkind, hcalls⟩
  | loop h | right h | left h =>
    exact .inr (exists_core_of_isCall rfl "" (List.cons_ne_nil _ _))
  | sequence hlength h | choice hlength h =>
    refine .inr (exists_core_of_isCall rfl "" ?_)
    rintro rfl
    simp at hlength
  | single h ih | only h ih | notRight h ih | notLeft h ih => exact ih

/-- The trees in normal form that draw nothing are the hollow ones. -/
theorem Normal.calls_eq_nil_iff {layer : Layer} {node : Node} (h : Normal layer node) :
    node.calls = [] ↔ node.Hollow := by
  constructor
  · intro hcalls
    rcases h.hollow_or_exists_core with hhollow | ⟨core, hcore, -, hne⟩
    · exact hhollow
    · rw [hcore.calls_eq] at hcalls
      exact absurd hcalls hne
  · intro hhollow
    rw [Wraps.calls_eq hhollow, calls_nothing]

/-! ## Arguments -/

/-- An argument in the place of a child is the text of the child.  It is empty if the child is
hollow, and only then; otherwise it is the text of one tree that is no group: the child, or what
the groups of the child stand around. -/
structure Fills (child : Node) (argument : List Char) : Prop where
  text : argument = child.calls
  eq_nil_iff : argument = [] ↔ child.Hollow
  core : ¬child.Hollow → ∃ core, child.Wraps core ∧ core.kind ≠ .group ∧ argument = core.calls

/-- A node is drawn as one call, with an argument for each child and a comma between any
two arguments. -/
structure Takes (node : Node) (arguments : List (List Char)) : Prop where
  text : node.calls = node.kind.opening.toList ++
    ([',', ' '].intercalate arguments ++ ')' :: node.kind.gap.toList)
  arguments : List.Forall₂ Fills node.children arguments

/-- The further arguments are the others with commas in front of them. -/
theorem intercalate_map_calls (node : Node) (nodes : List Node) :
    [',', ' '].intercalate ((node :: nodes).map calls) = node.calls ++ furtherCalls nodes := by
  induction nodes generalizing node with
  | nil => simp [furtherCalls]
  | cons next nodes ih =>
    rw [List.map_cons, List.map_cons, List.intercalate_cons_cons, ← List.map_cons, ih next]
    simp [furtherCalls]

/-- A call in normal form has children, and the calls for loops and optional branches
have but one. -/
theorem Normal.children_of_isCall {layer : Layer} {node : Node} (h : Normal layer node)
    (hcall : node.kind.isCall) : ∃ first rest, node.children = first :: rest ∧
      (node.kind = .sequence ∨ node.kind = .choice ∨ rest = []) := by
  induction h with
  | name h | terminal h | remark hbracket htrim | emptyGroup | group h => cases hcall
  | @loop inner h | @right inner h | @left inner h => exact ⟨inner, [], rfl, .inr (.inr rfl)⟩
  | @sequence nodes hlength h =>
    match nodes with
    | first :: rest => exact ⟨first, rest, rfl, .inl rfl⟩
  | @choice nodes hlength h =>
    match nodes with
    | first :: rest => exact ⟨first, rest, rfl, .inr (.inl rfl)⟩
  | single h ih | only h ih | notRight h ih | notLeft h ih => exact ih hcall

/-- The text of a tree in normal form is the argument in its place. -/
theorem Normal.fills_calls {layer : Layer} {node : Node} (h : Normal layer node) :
    node.Fills node.calls := by
  refine ⟨rfl, h.calls_eq_nil_iff, fun hfilled => ?_⟩
  rcases h.hollow_or_exists_core with hhollow | ⟨core, hcore, hkind, -⟩
  · exact absurd hhollow hfilled
  · exact ⟨core, hcore, hkind, hcore.calls_eq⟩

/-- The arguments of a call in normal form are the texts of the children. -/
theorem Normal.takes_calls {layer : Layer} {node : Node} (h : Normal layer node)
    (hcall : node.kind.isCall) : node.Takes (node.children.map calls) := by
  constructor
  · obtain ⟨first, rest, hchildren, -⟩ := h.children_of_isCall hcall
    rcases node with ⟨kind, value, children⟩
    subst hchildren
    rw [intercalate_map_calls, calls_call hcall, List.append_assoc]
  · rw [List.forall₂_map_right_iff, List.forall₂_same]
    intro child hmem
    obtain ⟨layer', hchild⟩ := h.of_mem_children hmem
    exact hchild.fills_calls

/-! ## The text of a tree inside of a tree -/

/-- The calls for each of the further arguments are among them. -/
theorem calls_infix_furtherCalls {node : Node} {nodes : List Node} (hmem : node ∈ nodes) :
    node.calls <:+: furtherCalls nodes := by
  have hcomma : node.calls <:+: ',' :: ' ' :: node.calls := ⟨[',', ' '], [], by simp⟩
  exact hcomma.trans (List.infix_of_mem_flatten (List.mem_map_of_mem hmem))

/-- A call holds those for each of its arguments. -/
theorem calls_infix_of_isCall {kind : Kind} (hcall : kind.isCall) (value : String)
    {nodes : List Node} {child : Node} (hmem : child ∈ nodes) :
    child.calls <:+: calls ⟨kind, value, nodes⟩ := by
  match nodes with
  | first :: rest =>
    rw [calls_call hcall]
    apply List.infix_append_of_infix_right
    rcases List.mem_cons.mp hmem with rfl | hrest
    · exact List.infix_append_left
    · apply List.infix_append_of_infix_right
      apply List.infix_append_of_infix_left
      exact calls_infix_furtherCalls hrest

/-- The text of a child is part of the text of its parent. -/
theorem Normal.calls_infix {layer : Layer} {node child : Node} (h : Normal layer node)
    (hmem : child ∈ node.children) : child.calls <:+: node.calls := by
  induction h with
  | name h | terminal h | remark hbracket htrim | emptyGroup => cases hmem
  | @group inner h =>
    obtain rfl : child = inner := List.mem_singleton.mp hmem
    refine ⟨[], [], ?_⟩
    rw [List.nil_append, List.append_nil, calls_group]
  | loop h | right h | left h | sequence hlength h | choice hlength h =>
    exact calls_infix_of_isCall rfl "" hmem
  | single h ih | only h ih | notRight h ih | notLeft h ih => exact ih hmem

/-- The text of a tree inside of another one is part of the text of that. -/
theorem Normal.calls_infix_of_subtree {layer : Layer} {node below : Node}
    (h : Normal layer node) (hbelow : node.Subtree below) : below.calls <:+: node.calls := by
  induction hbelow generalizing layer with
  | root node => exact List.infix_rfl
  | child hmem hbelow ih =>
    obtain ⟨layer', hchild⟩ := h.of_mem_children hmem
    exact (ih hchild).trans (h.calls_infix hmem)

end Node

namespace Rule

open Node

/-- Every sequence, choice, loop or optional branch in the tree of a rule that is read
is drawn as a call with an argument for each of its children, of which loops and
optional branches have one.  The arguments are the texts of the children, and the empty ones
are those for groups around nothing.  The exception is the empty sequence of an empty body,
which is not drawn. -/
theorem takes_arguments {source : String} {rule : Rule} {node : Node}
    (h : parse source = .ok (some rule)) (hnode : rule.root.Subtree node)
    (hcall : node.kind.isCall) :
    (rule.root = ⟨.sequence, "", []⟩ ∧ node = rule.root ∧ node.calls = []) ∨
      node.calls <:+: rule.diagram.text.toList ∧ node.Takes (node.children.map calls) ∧
        node.children ≠ [] ∧
        (node.kind = .sequence ∨ node.kind = .choice ∨ node.children.length = 1) := by
  rcases (normal_of_parse_eq h).root with hempty | hbody
  · left
    rw [hempty] at hnode ⊢
    cases hnode with
    | root => exact ⟨rfl, rfl, rfl⟩
    | child hmem hbelow => cases hmem
  · right
    obtain ⟨layer, hnormal⟩ := hbody.of_subtree hnode
    obtain ⟨first, rest, hchildren, hkind⟩ := hnormal.children_of_isCall hcall
    refine ⟨?_, hnormal.takes_calls hcall, ?_, ?_⟩
    · rw [toList_diagram]
      apply List.infix_append_of_infix_right
      apply List.infix_append_of_infix_left
      exact hbody.calls_infix_of_subtree hnode
    · simp [hchildren]
    · rcases hkind with hkind | hkind | hrest
      · exact .inl hkind
      · exact .inr (.inl hkind)
      · exact .inr (.inr (by simp [hchildren, hrest]))

/-- A choice between a name and an empty group. -/
def nameOrNothing : Node :=
  ⟨.choice, "", [.nonTerminal "a", nothing]⟩

/-- A rule with that choice in a group in a loop. -/
def repeatedNameOrNothing : Rule :=
  ⟨"r", ⟨.choiceRight, "", [⟨.sequence, "", [
    ⟨.loop, "", [⟨.group, "", [nameOrNothing]⟩]⟩, .terminal "'b'"]⟩]⟩⟩

/-- The choice has two arguments, of which the one for the empty group is empty. -/
theorem takes_arguments_choice :
    parse "r : (a | ())+ 'b' |" = .ok (some repeatedNameOrNothing) ∧
      repeatedNameOrNothing.root.Subtree nameOrNothing ∧
      nameOrNothing.calls <:+: repeatedNameOrNothing.diagram.text.toList ∧
      nameOrNothing.Takes ["NonTerminal('a')".toList, []] := by
  have h : parse "r : (a | ())+ 'b' |" = .ok (some repeatedNameOrNothing) := by
    decide +kernel
  have hnode : repeatedNameOrNothing.root.Subtree nameOrNothing :=
    .child List.mem_cons_self (.child List.mem_cons_self
      (.child List.mem_cons_self (.child List.mem_cons_self (.root _))))
  rcases takes_arguments h hnode rfl with ⟨hempty, -⟩ | ⟨htext, htakes, -⟩
  · cases hempty
  · exact ⟨h, hnode, htext, htakes⟩

/-- An empty group gives an empty argument in each kind of call: in optional branches, in a
sequence, in a choice, and in a loop. -/
theorem calls_argument_empty_group :
    parse "r : () |" = .ok (some ⟨"r", ⟨.choiceRight, "", [nothing]⟩⟩) ∧ nothing.calls = [] ∧
      (parse "r : () |").map (Option.map fun rule => rule.diagram.text) =
        .ok (some "ComplexDiagram(\n\tOptional () \n).addTo()\n") ∧
      (parse "r : | ()").map (Option.map fun rule => rule.diagram.text) =
        .ok (some "ComplexDiagram(\n\tOptional ( )\n).addTo()\n") ∧
      (parse "r : () a").map (Option.map fun rule => rule.diagram.text) =
        .ok (some "ComplexDiagram(\n\tSequence (, NonTerminal('a'))\n).addTo()\n") ∧
      (parse "r : a | ()").map (Option.map fun rule => rule.diagram.text) =
        .ok (some "ComplexDiagram(\n\tChoice (0, NonTerminal('a'), )\n).addTo()\n") ∧
      (parse "r : ()+").map (Option.map fun rule => rule.diagram.text) =
        .ok (some "ComplexDiagram(\n\tOneOrMore ()\n).addTo()\n") := by
  decide +kernel

end Rule

end Railroad
