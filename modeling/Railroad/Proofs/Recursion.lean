import Railroad.Diagram
import Railroad.Json.Encoding
import Railroad.Proofs.Height
import Railroad.Rail

/-!
# Going down trees

What is computed from a tree by going down to its leaves is put together, at each node, from
what has been computed for the children.  A function that does so is called for a child while
it is being carried out for the node above, so that as many of its calls stand inside of each
other as the tree is high.  The nesting of a tree, its rail text, its diagram and its JSON text
are computed in this way.

Main definitions:

- Definition {lit}`Node.fold`: what is computed by going down a tree.
- Definition {lit}`Node.foldWithin`: the same with a bound on the calls inside of each other.
- Definition {lit}`Node.RecursionWithin`: such a bound for all that is computed from trees.

Main results:

- Theorem {lit}`Node.foldWithin_eq`: as many calls are needed as the tree is high.
- Theorem {lit}`Node.recursionWithin`: this bounds what is computed from trees.
-/

namespace Railroad.Node

variable {α : Type}

/-! ## Folds -/

mutual

/-- What is computed by going down a tree and putting together, at each node, what belongs to
its children. -/
def fold (combine : Kind → String → List α → α) : Node → α
  | ⟨kind, value, children⟩ => combine kind value (foldAll combine children)

/-- What is computed by going down each of some trees. -/
def foldAll (combine : Kind → String → List α → α) : List Node → List α
  | [] => []
  | node :: nodes => node.fold combine :: foldAll combine nodes

end

/-- What is computed by going down a tree, if at most `levels` calls stand inside of each
other. -/
def foldWithin (combine : Kind → String → List α → α) : Nat → Node → Option α
  | 0, _ => none
  | levels + 1, node => do
    let parts ← node.children.mapM (foldWithin combine levels)
    return combine node.kind node.value parts

variable {combine : Kind → String → List α → α}

theorem foldAll_eq_map (nodes : List Node) : foldAll combine nodes = nodes.map (fold combine) := by
  induction nodes with
  | nil => rfl
  | cons node nodes ih => rw [foldAll, ih, List.map_cons]

/-- A fold combines the kind and the value of the root with what the children come to. -/
theorem fold_eq (node : Node) :
    node.fold combine = combine node.kind node.value (node.children.map (fold combine)) := by
  cases node
  rw [fold, foldAll_eq_map]

/-- Trees that are not too high are gone down one after the other. -/
theorem mapM_foldWithin {levels : Nat} {nodes : List Node}
    (h : ∀ node ∈ nodes, node.foldWithin combine levels =
      if node.height ≤ levels then some (node.fold combine) else none) :
    nodes.mapM (foldWithin combine levels) =
      if heightAll nodes ≤ levels then some (nodes.map (fold combine)) else none := by
  induction nodes with
  | nil => rfl
  | cons node nodes ih =>
    obtain ⟨hnode, hnodes⟩ := List.forall_mem_cons.mp h
    rw [List.mapM_cons, hnode, ih hnodes, heightAll]
    by_cases hhead : node.height ≤ levels
    · by_cases htail : heightAll nodes ≤ levels
      · rw [if_pos hhead, if_pos htail, if_pos (Nat.max_le.mpr ⟨hhead, htail⟩)]
        rfl
      · rw [if_pos hhead, if_neg htail, if_neg fun h => htail (Nat.max_le.mp h).2]
        rfl
    · rw [if_neg hhead, if_neg fun h => hhead (Nat.max_le.mp h).1]
      rfl

/-- As many calls stand inside of each other as the tree is high. -/
theorem foldWithin_eq (levels : Nat) (node : Node) :
    node.foldWithin combine levels =
      if node.height ≤ levels then some (node.fold combine) else none := by
  induction levels generalizing node with
  | zero => rw [foldWithin, if_neg (Nat.not_le.mpr node.height_pos)]
  | succ levels ih =>
    rw [foldWithin, mapM_foldWithin fun child _ => ih child, height_eq, fold_eq]
    by_cases h : heightAll node.children ≤ levels
    · rw [if_pos h, if_pos (by omega)]
      rfl
    · rw [if_neg h, if_neg (by omega)]
      rfl

/-! ## What is computed from trees -/

/-- The nesting of a tree from the nestings of its children. -/
def nestingOver (kind : Kind) (_ : String) (below : List Nat) : Nat :=
  (if kind.nests then 1 else 0) + below.foldr max 0

/-- The rail text of a tree from those of its children. -/
def railOver (kind : Kind) (value : String) (below : List Rendering) : Rendering :=
  match kind with
  | .sequence => .join " " below
  | .choice => .join " | " below
  | .choiceRight => .between "" (.join " " below) "| "
  | .choiceLeft => .between "| " (.join " " below) ""
  | .loop => .between "" (.join " " below) "+ "
  | .remark => .ofText ("[" ++ value ++ "] ")
  | .terminal | .nonTerminal => .ofText (value ++ " ")
  | .group => .between "(" (.join " " below) ")"
  | .choiceSingle => .report (.unexpectedKind kind)

/-- The calls that draw a tree from those that draw its children. -/
def diagramOver (kind : Kind) (value : String) (below : List Rendering) : Rendering :=
  match kind with
  | .sequence => callIfAny "Sequence (" below
  | .choice => callIfAny "Choice (0, " below
  | .choiceRight => .between "Optional (" (.join ", " below) ") "
  | .choiceLeft => .between "Optional ( " (.join ", " below) ")"
  | .loop => callIfAny "OneOrMore (" below
  | .remark => .between ("Comment ('" ++ value ++ "')") (.join ", " below) ""
  | .terminal => .ofText value
  | .nonTerminal => .ofText ("NonTerminal('" ++ value ++ "')")
  | .group => .join ", " below
  | .choiceSingle => .report (.unexpectedKind kind)

open Json in
/-- The JSON text of a tree from those of its children.  All of them depend on the number of
lists and objects around. -/
def encodeOver (layout : Layout) (kind : Kind) (value : String) (below : List (Nat → List Char))
    (level : Nat) : List Char :=
  object layout level <|
    member layout "kind" (quote kind.name) ::
      ((if value = "" then [] else [member layout "value" (quote value)]) ++
        (match below with
        | [] => []
        | _ :: _ =>
          [member layout "children"
            (list layout (level + 1) (below.map fun part => part (level + 2)))]))

theorem nestingAll_eq_foldr (nodes : List Node) :
    nestingAll nodes = (nodes.map nesting).foldr max 0 := by
  induction nodes with
  | nil => rfl
  | cons node nodes ih => rw [nestingAll, ih, List.map_cons, List.foldr_cons]

/-- A function that puts together what it gives for the children is a fold. -/
theorem eq_fold {view : Node → α}
    (h : ∀ kind value children, view ⟨kind, value, children⟩ =
      combine kind value (children.map view)) (node : Node) :
    view node = node.fold combine := by
  induction node using childrenInduction with
  | node node ih =>
    rcases node with ⟨kind, value, children⟩
    rw [h, fold_eq, List.map_congr_left ih]

/-- The nesting of a tree is a fold. -/
theorem nesting_eq_fold (node : Node) : node.nesting = node.fold nestingOver := by
  apply eq_fold
  intro kind value children
  rw [nesting, nestingAll_eq_foldr, nestingOver]

/-- So is its rail text. -/
theorem rail_eq_fold (node : Node) : node.rail = node.fold railOver := by
  apply eq_fold
  intro kind value children
  cases kind <;> simp only [rail, railAll_eq_map, railOver]

/-- So are the calls that draw it. -/
theorem diagram_eq_fold (node : Node) : node.diagram = node.fold diagramOver := by
  apply eq_fold
  intro kind value children
  cases kind <;> simp only [diagram, diagramAll_eq_map, diagramOver]

/-- So is its text as JSON, as a function of the level at which it stands. -/
theorem encode_eq_fold (layout : Json.Layout) (node : Node) :
    (fun level => node.encode layout level) = node.fold (encodeOver layout) := by
  refine @eq_fold _ _ (fun node level => node.encode layout level) ?_ node
  intro kind value children
  funext level
  cases children with
  | nil => rfl
  | cons child children =>
    simp only [encode, encodeAll_eq_map, encodeOver, List.map_cons, List.map_map]
    rfl

/-- Whatever is computed from a tree, at most `levels` calls stand inside of each other. -/
structure RecursionWithin (levels : Nat) (node : Node) : Prop where
  nesting : node.foldWithin nestingOver levels = some node.nesting
  rail : node.foldWithin railOver levels = some node.rail
  diagram : node.foldWithin diagramOver levels = some node.diagram
  json : ∀ layout, node.foldWithin (encodeOver layout) levels = some fun level =>
    node.encode layout level

/-- The height of a tree bounds the calls for all that is computed from it. -/
theorem recursionWithin {levels : Nat} {node : Node} (h : node.height ≤ levels) :
    node.RecursionWithin levels := by
  refine ⟨?_, ?_, ?_, fun layout => ?_⟩
  · rw [foldWithin_eq, if_pos h, nesting_eq_fold]
  · rw [foldWithin_eq, if_pos h, rail_eq_fold]
  · rw [foldWithin_eq, if_pos h, diagram_eq_fold]
  · rw [foldWithin_eq, if_pos h, encode_eq_fold]

end Railroad.Node
