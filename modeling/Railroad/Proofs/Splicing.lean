import Railroad.Proofs.Diagram.Arguments

/-!
# Splicing

A sequence that stands right below a sequence can give its children to the node above, and so
can a choice below a choice.  Rail text does not show whether it has done so, unless it is
empty: then a separator is lost with it.

Main definitions:

- Definition {lit}`Node.SplicesInto`: a child that can give its children away.
- Definition {lit}`Node.spliced`: a tree in which all such children have done so.
- Definition {lit}`Node.plug`: a tree with others around it.

Main results:

- Theorem {lit}`Rendering.join_flatten`: rows of renderings in a row.
- Theorem {lit}`Node.rail_flatten`: any children may give their own children away.
- Theorem {lit}`Node.rail_spliced`: all may, at all depths, and so may an added one.
-/

namespace Railroad

namespace Rendering

/-! ## Rows of renderings -/

theorem append_assoc (r s t : Rendering) : r ++ s ++ t = r ++ (s ++ t) := by
  ext1
  · simp [String.append_assoc]
  · simp

/-- Two rows of renderings with a separator between them are one row. -/
theorem join_append (separator : String) {rs ss : List Rendering} (hrs : rs ≠ []) (hss : ss ≠ []) :
    join separator (rs ++ ss) = join separator rs ++ ofText separator ++ join separator ss := by
  fun_induction join separator rs with
  | case1 => exact absurd rfl hrs
  | case2 r =>
    obtain ⟨s, rest, rfl⟩ := List.exists_cons_of_ne_nil hss
    rw [List.singleton_append, join]
  | case3 r s rest ih =>
    have hrest := ih (List.cons_ne_nil s rest)
    rw [List.cons_append] at hrest
    rw [List.cons_append, List.cons_append, join, hrest]
    simp only [append_assoc]

/-- Rows of renderings in a row are one row, if none of them is empty. -/
theorem join_flatten (separator : String) {rows : List (List Rendering)}
    (h : ∀ rs ∈ rows, rs ≠ []) :
    join separator rows.flatten = join separator (rows.map (join separator)) := by
  induction rows with
  | nil => rfl
  | cons rs rows ih =>
    obtain ⟨hrs, hrows⟩ := List.forall_mem_cons.mp h
    match rows with
    | [] => rw [List.flatten_singleton, List.map_singleton, join]
    | ss :: rows =>
      have hne : (ss :: rows).flatten ≠ [] := by
        simp [List.flatten_cons, hrows ss List.mem_cons_self]
      rw [List.flatten_cons, join_append separator hrs hne, ih hrows]
      rfl

end Rendering

namespace Node

/-! ## Children that are spliced -/

/-- A child below a node of a kind that can give its own children to that node. -/
def SplicesInto (kind : Kind) (child : Node) : Prop :=
  child.kind = kind ∧ kind.flattens ∧ child.children ≠ []

instance (kind : Kind) : DecidablePred (SplicesInto kind) :=
  fun _ => inferInstanceAs (Decidable (_ ∧ _))

/-- Some nodes that can stand in the place of a child: the child itself, or its children. -/
def StandsFor (kind : Kind) (child : Node) (nodes : List Node) : Prop :=
  nodes = [child] ∨ SplicesInto kind child ∧ nodes = child.children

/-- What separates the children of a sequence or of a choice. -/
def separator : Kind → String
  | .choice => " | "
  | _ => " "

/-- Sequences and choices are rendered as their children with separators between them. -/
theorem rail_of_flattens {node : Node} (h : node.kind.flattens) :
    node.rail = .join (separator node.kind) (node.children.map rail) := by
  rcases node with ⟨kind, value, children⟩
  cases kind with
  | sequence | choice =>
    rw [← railAll_eq_map, rail]
    rfl
  | choiceRight | choiceLeft | choiceSingle | loop | remark | terminal | nonTerminal | group =>
    cases h

/-- The rail text of a node depends on its kind, its value and what is rendered below. -/
theorem rail_congr (kind : Kind) (value : String) {nodes nodes' : List Node}
    (h : nodes.map rail = nodes'.map rail) :
    rail ⟨kind, value, nodes⟩ = rail ⟨kind, value, nodes'⟩ := by
  cases kind <;> simp only [rail, railAll_eq_map, h]

/-- Something always stands for a child, so that no separator gets lost. -/
theorem StandsFor.ne_nil {kind : Kind} {child : Node} {nodes : List Node}
    (h : StandsFor kind child nodes) : nodes ≠ [] := by
  rcases h with rfl | ⟨⟨-, -, hne⟩, rfl⟩
  · exact List.cons_ne_nil child []
  · exact hne

/-- Below nodes that do not dissolve others, every child stands for itself. -/
theorem StandsFor.eq_of_not_flattens {kind : Kind} (hkind : ¬ kind.flattens) {child : Node}
    {nodes : List Node} (h : StandsFor kind child nodes) : nodes = [child] :=
  h.resolve_right fun hspliced => hkind hspliced.1.2.1

/-- What stands for a child is rendered like the child. -/
theorem StandsFor.join_eq {kind : Kind} (hkind : kind.flattens) {child : Node}
    {nodes : List Node} (h : StandsFor kind child nodes) :
    .join (separator kind) (nodes.map rail) = child.rail := by
  rcases h with rfl | ⟨⟨rfl, -, -⟩, rfl⟩
  · rfl
  · exact (rail_of_flattens hkind).symm

/-- Any children of a node may give their own children to it. -/
theorem rail_flatten {kind : Kind} (value : String) {nodes : List Node} {rows : List (List Node)}
    (h : List.Forall₂ (StandsFor kind) nodes rows) :
    rail ⟨kind, value, rows.flatten⟩ = rail ⟨kind, value, nodes⟩ := by
  by_cases hkind : kind.flattens
  · have hrows : (∀ row ∈ rows.map (List.map rail), row ≠ []) ∧
        (rows.map (List.map rail)).map (.join (separator kind)) = nodes.map rail := by
      induction h with
      | nil => exact ⟨by simp, rfl⟩
      | cons hchild hrest ih =>
        rw [List.map_cons, List.forall_mem_cons, List.map_cons, List.map_cons,
          hchild.join_eq hkind, ih.2]
        exact ⟨⟨by simpa using hchild.ne_nil, ih.1⟩, rfl⟩
    rw [rail_of_flattens hkind, rail_of_flattens hkind, List.map_flatten,
      Rendering.join_flatten _ hrows.1, hrows.2]
  · have hrows : rows.flatten = nodes := by
      induction h with
      | nil => rfl
      | cons hchild hrest ih =>
        rw [List.flatten_cons, ih, hchild.eq_of_not_flattens hkind, List.singleton_append]
    rw [hrows]

/-! ## Splicing at all depths -/

/-- What stands for a child below a node of a kind when all that can be spliced is. -/
def splicedIn (kind : Kind) (child : Node) : List Node :=
  if SplicesInto kind child then child.children else [child]

mutual

/-- The tree in which all children that can give their own children away have done so. -/
def spliced : Node → Node
  | ⟨kind, value, children⟩ => ⟨kind, value, (splicedAll children).flatMap (splicedIn kind)⟩

/-- Trees in which all such children have done so. -/
def splicedAll : List Node → List Node
  | [] => []
  | node :: nodes => node.spliced :: splicedAll nodes

end

theorem splicedAll_eq_map (nodes : List Node) : splicedAll nodes = nodes.map spliced := by
  induction nodes with
  | nil => rfl
  | cons node nodes ih => rw [splicedAll, ih, List.map_cons]

/-- The children of a spliced node are spliced first, and then those that can be are spliced
into it. -/
theorem spliced_eq (node : Node) :
    node.spliced =
      ⟨node.kind, node.value, (node.children.map spliced).flatMap (splicedIn node.kind)⟩ := by
  cases node
  rw [spliced, splicedAll_eq_map]

/-- What is spliced in for a child stands for it. -/
theorem standsFor_splicedIn (kind : Kind) (child : Node) :
    StandsFor kind child (splicedIn kind child) := by
  unfold splicedIn
  split
  · rename_i h
    exact .inr ⟨h, rfl⟩
  · exact .inl rfl

/-- Splicing at all depths does not show in rail text. -/
theorem rail_spliced_eq (node : Node) : node.spliced.rail = node.rail := by
  induction node using childrenInduction with
  | node node ih =>
    have hrows : List.Forall₂ (StandsFor node.kind) (node.children.map spliced)
        ((node.children.map spliced).map (splicedIn node.kind)) := by
      rw [List.forall₂_map_right_iff, List.forall₂_same]
      intro child _
      exact standsFor_splicedIn node.kind child
    have hchildren : (node.children.map spliced).map rail = node.children.map rail := by
      rw [List.map_map]
      exact List.map_congr_left ih
    rw [spliced_eq, List.flatMap_def, rail_flatten _ hrows]
    cases node
    exact rail_congr _ _ hchildren

/-- Nothing that can be spliced is left. -/
theorem not_splicesInto_of_subtree_spliced {node below child : Node}
    (h : node.spliced.Subtree below) (hchild : child ∈ below.children) :
    ¬ SplicesInto below.kind child := by
  induction node using childrenInduction generalizing below child with
  | node node ih =>
    rw [spliced_eq] at h
    cases h with
    | root =>
      obtain ⟨top, htop, hmem⟩ := List.mem_flatMap.mp hchild
      obtain ⟨origin, horigin, rfl⟩ := List.mem_map.mp htop
      by_cases hspliced : SplicesInto node.kind origin.spliced
      · -- The child has come up from below a node of the same kind.
        rw [splicedIn, if_pos hspliced] at hmem
        have hbelow := ih origin horigin (.root _) hmem
        rwa [hspliced.1] at hbelow
      · rw [splicedIn, if_neg hspliced, List.mem_singleton] at hmem
        exact hmem ▸ hspliced
    | child hmem hbelow =>
      obtain ⟨top, htop, hmem⟩ := List.mem_flatMap.mp hmem
      obtain ⟨origin, horigin, rfl⟩ := List.mem_map.mp htop
      by_cases hspliced : SplicesInto node.kind origin.spliced
      · rw [splicedIn, if_pos hspliced] at hmem
        exact ih origin horigin (.child hmem hbelow) hchild
      · rw [splicedIn, if_neg hspliced, List.mem_singleton] at hmem
        exact ih origin horigin (hmem ▸ hbelow) hchild

/-! ## Splicing in any surroundings -/

/-- The node with one more child behind its children, which stays whole. -/
def push (node child : Node) : Node :=
  { node with children := node.children ++ [child] }

/-- A node with a gap among its children. -/
structure Frame where
  kind : Kind
  value : String
  before : List Node
  after : List Node

/-- A tree in the gap of a node, that node in the gap of the next one, and so on. -/
def plug (node : Node) (frames : List Frame) : Node :=
  frames.foldl (fun node f => ⟨f.kind, f.value, f.before ++ node :: f.after⟩) node

/-- Trees that are rendered alike are so in the same surroundings. -/
theorem rail_plug_congr {node node' : Node} (h : node.rail = node'.rail) (frames : List Frame) :
    (node.plug frames).rail = (node'.plug frames).rail := by
  induction frames generalizing node node' with
  | nil => exact h
  | cons f frames ih =>
    refine ih (rail_congr f.kind f.value ?_)
    rw [List.map_append, List.map_append, List.map_cons, List.map_cons, h]

/-- Adding a child that is not empty renders like adding it as a whole. -/
theorem rail_add {node child : Node} (h : child.children ≠ []) :
    (node.add child).rail = (node.push child).rail := by
  have hrows : List.Forall₂ (StandsFor node.kind) (node.children ++ [child])
      (node.children.map ([·]) ++ [splicedIn node.kind child]) := by
    refine List.rel_append ?_ (.cons (standsFor_splicedIn node.kind child) .nil)
    rw [List.forall₂_map_right_iff, List.forall₂_same]
    exact fun sibling _ => .inl rfl
  have hadd : node.add child = ⟨node.kind, node.value,
      (node.children.map ([·]) ++ [splicedIn node.kind child]).flatten⟩ := by
    have hsiblings : (node.children.map ([·])).flatten = node.children := by
      rw [← List.flatMap_def, List.flatMap_singleton']
    have hspliced : SplicesInto node.kind child ↔ child.kind = node.kind ∧ node.kind.flattens := by
      simp [SplicesInto, h]
    rw [List.flatten_append, List.flatten_singleton, hsiblings, add, splicedIn]
    simp only [hspliced]
    split <;> rfl
  rw [hadd, rail_flatten _ hrows, push]

/-- Splicing changes nothing about rail text and its reports, wherever in a tree sequences
stand right below sequences or choices below choices and have children, and nothing that can
be spliced is left.  In the same way a sequence that is added to a sequence, or a choice that
is added to a choice, might as well have been added as a whole. -/
theorem rail_spliced :
    (∀ node : Node, node.spliced.rail = node.rail ∧
      ∀ below, node.spliced.Subtree below → ∀ child ∈ below.children,
        ¬ SplicesInto below.kind child) ∧
    ∀ (frames : List Frame) (a b : Node), a.kind = b.kind → a.kind.flattens → b.children ≠ [] →
      a.add b = { a with children := a.children ++ b.children } ∧
        ((a.add b).plug frames).rail = ((a.push b).plug frames).rail := by
  refine ⟨fun node => ⟨rail_spliced_eq node, fun below hbelow child hchild =>
    not_splicesInto_of_subtree_spliced hbelow hchild⟩, ?_⟩
  intro frames a b hkind hflattens hne
  exact ⟨if_pos ⟨hkind.symm, hflattens⟩, rail_plug_congr (rail_add hne) frames⟩

/-- A choice with a node that is not rendered, a choice and an empty choice. -/
def innerChoice : Node :=
  ⟨.choice, "v", [⟨.choiceSingle, "", []⟩, ⟨.choice, "", [nonTerminal "a"]⟩, ⟨.choice, "", []⟩]⟩

/-- A choice around it. -/
def outerChoice : Node :=
  ⟨.choice, "", [innerChoice, nonTerminal "a"]⟩

/-- A loop with a gap in front of a name. -/
def loopAround : List Frame :=
  [⟨.loop, "", [], [nonTerminal "a"]⟩]

/-- Of three choices below each other one is left, and the empty one stays; and the inner choice
is added to the outer one below a loop. -/
theorem rail_spliced_choices :
    outerChoice.spliced =
        ⟨.choice, "", [⟨.choiceSingle, "", []⟩, nonTerminal "a", ⟨.choice, "", []⟩,
          nonTerminal "a"]⟩ ∧
      outerChoice.spliced.rail = ⟨" | a  |  | a ", [.unexpectedKind .choiceSingle]⟩ ∧
      ¬ SplicesInto .choice ⟨.choice, "", []⟩ ∧
      ((outerChoice.add innerChoice).plug loopAround).rail =
        ⟨" | a  |  | a  |  | a  |  a + ", [.unexpectedKind .choiceSingle,
          .unexpectedKind .choiceSingle]⟩ := by
  have hspliced : outerChoice.spliced =
      ⟨.choice, "", [⟨.choiceSingle, "", []⟩, nonTerminal "a", ⟨.choice, "", []⟩,
        nonTerminal "a"]⟩ := by
    decide
  obtain ⟨hrail, hleft⟩ := rail_spliced.1 outerChoice
  refine ⟨hspliced, hrail.trans (by decide), ?_, ?_⟩
  · rw [hspliced] at hleft
    exact hleft _ (.root _) ⟨.choice, "", []⟩ (by simp)
  · have hadded := rail_spliced.2 loopAround outerChoice innerChoice rfl rfl (List.cons_ne_nil _ _)
    exact hadded.2.trans (by decide)

/-- An empty sequence that is added to a sequence is lost, and a separator with it. -/
example : (add ⟨.sequence, "", [nonTerminal "a"]⟩ (container .sequence)).rail.text = "a " ∧
    (push ⟨.sequence, "", [nonTerminal "a"]⟩ (container .sequence)).rail.text = "a  " := by
  decide

end Node

end Railroad
