import Railroad.Node.Assembly
import Railroad.Proofs.Leaves

/-!
# Trees that are built step by step

Adding a sequence to a sequence, or a choice to a choice, gives the children of the added
tree away one level up.  The leaves stay in order all the same, and no sequence comes to
stand right below a sequence, as long as that is so in the trees that are put together.
So it is for all trees that steps make, in whatever order the steps come and whichever
slots they use again.

Main definitions:

- Definition {lit}`Node.Flat`: no sequence right below a sequence, no choice right below a
  choice.
- Definition {lit}`Assembly.Step.leaves`: the leaves that a step calls for.

Main results:

- Theorems {lit}`Node.Flat.add` and {lit}`Node.leaves_add`: adding a tree to a tree.
- Theorem {lit}`Assembly.AllFlat.run`: steps from flat trees leave flat trees in all slots.
- Theorem {lit}`Assembly.built`: what each step of a program makes and changes.
-/

namespace Railroad

/-- The nodes that dissolve are sequences and choices. -/
theorem Kind.flattens_iff (kind : Kind) : kind.flattens ↔ kind = .sequence ∨ kind = .choice := by
  cases kind <;> simp [flattens]

namespace Node

/-! ## Flat trees -/

/-- Whether a child can stand below a node: not a sequence below a sequence, nor a choice
below a choice. -/
def FitsBelow (kind : Kind) (child : Node) : Prop :=
  (kind = .sequence → child.kind ≠ .sequence) ∧ (kind = .choice → child.kind ≠ .choice)

/-- No sequence stands right below a sequence, nor a choice right below a choice, wherever
one looks in the tree. -/
inductive Flat : Node → Prop where
  | node {node : Node} (hroot : ∀ child ∈ node.children, FitsBelow node.kind child)
      (hchildren : ∀ child ∈ node.children, Flat child) : Flat node

/-- What does not dissolve in a node can stand below it. -/
theorem fitsBelow_of_not_flattens {node child : Node}
    (h : ¬ (child.kind = node.kind ∧ node.kind.flattens)) : FitsBelow node.kind child := by
  rw [Kind.flattens_iff] at h
  constructor
  · intro hkind hchild
    exact h ⟨hchild.trans hkind.symm, .inl hkind⟩
  · intro hkind hchild
    exact h ⟨hchild.trans hkind.symm, .inr hkind⟩

theorem flat_leaf (kind : Kind) (value : String) : Flat (leaf kind value) :=
  .node (by simp [leaf]) (by simp [leaf])

theorem flat_container (kind : Kind) : Flat (container kind) :=
  flat_leaf kind ""

/-- Children that are flat themselves, and can stand below the root, can be put behind those
of a flat tree. -/
theorem Flat.append {node : Node} {nodes : List Node} (hnode : node.Flat)
    (hroot : ∀ child ∈ nodes, FitsBelow node.kind child)
    (hnodes : ∀ child ∈ nodes, child.Flat) :
    Flat { node with children := node.children ++ nodes } := by
  rcases hnode with ⟨holdRoot, holdChildren⟩
  refine .node (fun child hmem => ?_) (fun child hmem => ?_)
  · rcases List.mem_append.mp hmem with hold | hnew
    · exact holdRoot child hold
    · exact hroot child hnew
  · rcases List.mem_append.mp hmem with hold | hnew
    · exact holdChildren child hold
    · exact hnodes child hnew

/-- Adding a flat tree to a flat tree makes a flat tree. -/
theorem Flat.add {node child : Node} (hnode : node.Flat) (hchild : child.Flat) :
    (node.add child).Flat := by
  unfold Node.add
  by_cases hsame : child.kind = node.kind ∧ node.kind.flattens
  · -- The children of the added tree come up, and none of them is of its kind.
    rw [if_pos hsame]
    rcases hchild with ⟨hroot, hchildren⟩
    rw [hsame.1] at hroot
    exact hnode.append hroot hchildren
  · rw [if_neg hsame]
    refine hnode.append (fun added hmem => ?_) (fun added hmem => ?_)
    · rw [List.mem_singleton.mp hmem]
      exact fitsBelow_of_not_flattens hsame
    · rw [List.mem_singleton.mp hmem]
      exact hchild

/-! ## Leaves -/

/-- The entry of a node among the leaves, if it is one of them. -/
def ownLeaf (kind : Kind) (value : String) : List (Kind × String) :=
  if kind.shows then [(kind, value)] else []

@[simp] theorem leaves_leaf (kind : Kind) (value : String) :
    (leaf kind value).leaves = ownLeaf kind value := by
  simp [leaves_eq, leaf, leavesAll, ownLeaf]

@[simp] theorem leaves_container (kind : Kind) : (container kind).leaves = ownLeaf kind "" :=
  leaves_leaf kind ""

/-- Nodes that dissolve are no leaves. -/
theorem leaves_of_flattens {node : Node} (h : node.kind.flattens) :
    node.leaves = leavesAll node.children := by
  have hshows : node.kind.shows = false := by
    rcases (Kind.flattens_iff _).mp h with hkind | hkind <;> rw [hkind] <;> rfl
  rw [leaves_eq, hshows]
  rfl

/-- The leaves of an added tree stand behind those of the tree to which it is added. -/
@[simp] theorem leaves_add (node child : Node) :
    (node.add child).leaves = node.leaves ++ child.leaves := by
  unfold add
  by_cases hsame : child.kind = node.kind ∧ node.kind.flattens
  · rw [if_pos hsame, leaves_of_flattens (hsame.1 ▸ hsame.2 : child.kind.flattens)]
    simp only [leaves_eq, leavesAll_eq_flatMap, List.flatMap_append, List.append_assoc]
  · rw [if_neg hsame]
    simp only [leaves_eq node, leaves_eq { node with children := _ }, leavesAll_eq_flatMap,
      List.flatMap_append, List.append_assoc, List.flatMap_singleton]

end Node

namespace Assembly

/-! ## Slots -/

@[simp] theorem fill_self (slots : Slots) (slot : String) (node : Node) :
    fill slots slot node slot = some node :=
  if_pos rfl

@[simp] theorem fill_of_ne (slots : Slots) {slot name : String} (h : name ≠ slot) (node : Node) :
    fill slots slot node name = slots name :=
  if_neg h

/-- All slots that are filled hold flat trees. -/
def AllFlat (slots : Slots) : Prop :=
  ∀ name node, slots name = some node → node.Flat

theorem allFlat_noSlots : AllFlat noSlots := by
  intro name node h
  cases h

/-- A flat tree can be put into any slot. -/
theorem AllFlat.fill {slots : Slots} (h : AllFlat slots) (slot : String) {node : Node}
    (hnode : node.Flat) : AllFlat (fill slots slot node) := by
  intro name found hfound
  by_cases hname : name = slot
  · subst hname
    rw [fill_self, Option.some.injEq] at hfound
    exact hfound ▸ hnode
  · rw [fill_of_ne slots hname] at hfound
    exact h name found hfound

/-! ## Steps -/

/-- The leaves that a step calls for, by those of the trees that it reads. -/
def Step.leaves (read : String → Option (List (Kind × String))) :
    Step → Option (List (Kind × String))
  | leaf _ kind value => some (Node.ownLeaf kind value)
  | container _ kind => some (Node.ownLeaf kind "")
  | wrap _ kind child => do return Node.ownLeaf kind "" ++ (← read child)
  | extend _ base child => do return (← read base) ++ (← read child)
  | add slot child => do return (← read slot) ++ (← read child)
  | addPair slot first second => do return (← read slot) ++ (← read first) ++ (← read second)

/-- The tree that a step makes has the leaves that the step calls for. -/
theorem map_leaves_result (slots : Slots) (step : Step) :
    (step.result slots).map Node.leaves =
      step.leaves fun name => (slots name).map Node.leaves := by
  cases step with
  | leaf slot kind value => simp [Step.result, Step.leaves]
  | container slot kind => simp [Step.result, Step.leaves]
  | wrap slot kind child =>
    cases hchild : slots child <;> simp [Step.result, Step.leaves, Node.wrap, hchild]
  | extend slot base child =>
    cases hbase : slots base <;> cases hchild : slots child <;>
      simp [Step.result, Step.leaves, hbase, hchild]
  | add slot child =>
    cases hslot : slots slot <;> cases hchild : slots child <;>
      simp [Step.result, Step.leaves, hslot, hchild]
  | addPair slot first second =>
    cases hslot : slots slot <;> cases hfirst : slots first <;> cases hsecond : slots second <;>
      simp [Step.result, Step.leaves, Node.addPair, hslot, hfirst, hsecond]

/-- From flat trees a step makes a flat tree. -/
theorem AllFlat.result {slots : Slots} (hslots : AllFlat slots) {step : Step} {node : Node}
    (h : step.result slots = some node) : node.Flat := by
  cases step with
  | leaf slot kind value =>
    cases h
    exact Node.flat_leaf kind value
  | container slot kind =>
    cases h
    exact Node.flat_container kind
  | wrap slot kind child =>
    obtain ⟨tree, hchild, h⟩ := Option.bind_eq_some_iff.mp h
    cases h
    exact (Node.flat_container kind).add (hslots _ _ hchild)
  | extend slot base child =>
    obtain ⟨tree, hbase, h⟩ := Option.bind_eq_some_iff.mp h
    obtain ⟨added, hchild, h⟩ := Option.bind_eq_some_iff.mp h
    cases h
    exact (hslots _ _ hbase).add (hslots _ _ hchild)
  | add slot child =>
    obtain ⟨tree, hslot, h⟩ := Option.bind_eq_some_iff.mp h
    obtain ⟨added, hchild, h⟩ := Option.bind_eq_some_iff.mp h
    cases h
    exact (hslots _ _ hslot).add (hslots _ _ hchild)
  | addPair slot first second =>
    obtain ⟨tree, hslot, h⟩ := Option.bind_eq_some_iff.mp h
    obtain ⟨added, hfirst, h⟩ := Option.bind_eq_some_iff.mp h
    obtain ⟨last, hsecond, h⟩ := Option.bind_eq_some_iff.mp h
    cases h
    exact ((hslots _ _ hslot).add (hslots _ _ hfirst)).add (hslots _ _ hsecond)

/-- A step makes its tree and puts it into its slot, or it does nothing. -/
theorem exec_eq_some_iff {slots slots' : Slots} {step : Step} {node : Node} :
    exec slots step = some (node, slots') ↔
      step.result slots = some node ∧ slots' = fill slots step.slot node := by
  cases hresult : step.result slots with
  | none => simp [exec, hresult]
  | some made =>
    simp only [exec, hresult, Option.map_some, Option.some.injEq, Prod.mk.injEq]
    constructor
    · rintro ⟨rfl, rfl⟩
      exact ⟨rfl, rfl⟩
    · rintro ⟨rfl, rfl⟩
      exact ⟨rfl, rfl⟩

/-! ## Runs -/

/-- Steps from flat trees leave flat trees. -/
theorem AllFlat.run {slots slots' : Slots} (hslots : AllFlat slots) {steps : List Step}
    (h : run slots steps = some slots') : AllFlat slots' := by
  induction steps generalizing slots with
  | nil =>
    cases h
    exact hslots
  | cons step steps ih =>
    obtain ⟨⟨node, next⟩, hexec, hrest⟩ := Option.bind_eq_some_iff.mp h
    obtain ⟨hresult, rfl⟩ := exec_eq_some_iff.mp hexec
    exact ih (hslots.fill step.slot (hslots.result hresult)) hrest

/-- After any steps from empty slots, one more step makes a flat tree.  Its leaves are the
ones that the step calls for: those of the trees that it reads, in order, behind its own
entry where it makes a node.  There is no tree just if the step reads an empty slot.  The tree
goes into the slot of the step, and all other slots stay as they are. -/
theorem built {steps : List Step} {slots : Slots} (h : run noSlots steps = some slots)
    (step : Step) :
    ((exec slots step).map fun made => made.1.leaves) =
        (step.leaves fun name => (slots name).map Node.leaves) ∧
      ∀ node slots', exec slots step = some (node, slots') →
        node.Flat ∧ slots' step.slot = some node ∧
          ∀ name, name ≠ step.slot → slots' name = slots name := by
  constructor
  · rw [← map_leaves_result, exec, Option.map_map]
    rfl
  · intro node slots' hexec
    obtain ⟨hresult, rfl⟩ := exec_eq_some_iff.mp hexec
    exact ⟨(allFlat_noSlots.run h).result hresult, fill_self .., fun name hname =>
      fill_of_ne slots hname node⟩

/-- A sequence of one name, and a choice around it. -/
def wrappingSteps : List Step :=
  [.container "s" .sequence, .leaf "a" .nonTerminal "x", .add "s" "a", .wrap "c" .choice "s"]

/-- The slots after these steps. -/
def wrappingSlots : Slots :=
  fill (fill (fill (fill noSlots "s" (.container .sequence)) "a" (.nonTerminal "x"))
    "s" ⟨.sequence, "", [.nonTerminal "x"]⟩)
    "c" ⟨.choice, "", [⟨.sequence, "", [.nonTerminal "x"]⟩]⟩

/-- The name twice in a row, and then the choice. -/
def addedTwice : Node :=
  ⟨.sequence, "", [.nonTerminal "x", .nonTerminal "x",
    ⟨.choice, "", [⟨.sequence, "", [.nonTerminal "x"]⟩]⟩]⟩

/-- The sequence is added to itself, and then a choice that holds it as it was before. -/
theorem built_twice :
    run noSlots wrappingSteps = some wrappingSlots ∧
      exec wrappingSlots (.addPair "s" "s" "c") =
        some (addedTwice, fill wrappingSlots "s" addedTwice) ∧
      addedTwice.leaves = [(.nonTerminal, "x"), (.nonTerminal, "x"), (.nonTerminal, "x")] ∧
      addedTwice.Flat ∧ fill wrappingSlots "s" addedTwice "c" = wrappingSlots "c" := by
  have h : run noSlots wrappingSteps = some wrappingSlots := rfl
  have hbuilt := (built h (.addPair "s" "s" "c")).2 _ _ rfl
  exact ⟨h, rfl, rfl, hbuilt.1, hbuilt.2.2 "c" (by decide)⟩

end Assembly

end Railroad
