import Railroad.Rule
import Railroad.Rule.Error

/-!
# Alternations

An alternation is a row of branches with bars between them, and a branch is a row
of elements.  The first branch may be empty, which makes the others optional, and
so may the last one; an empty branch between two bars means nothing.

Main definitions:

- Definition {lit}`Alternation`: the branches and elements read so far.
- Definition {lit}`Alternation.tree`: the tree of a complete alternation.
-/

namespace Railroad

/-- The part of an alternation that has been read, newest first: the branches
that a bar has closed, each with that bar, and the elements of the branch behind
the last bar. -/
structure Alternation where
  closed : List (Option Node × Span)
  elements : List Node
deriving DecidableEq, Repr, Inhabited

namespace Alternation

/-- The alternation of which nothing has been read. -/
def empty : Alternation :=
  ⟨[], []⟩

/-- Reads one more element. -/
def push (a : Alternation) (node : Node) : Alternation :=
  { a with elements := node :: a.elements }

/-- The tree of a branch with the given elements: none for an empty branch, the
element itself if it is the only one, else a sequence. -/
def branchOf : List Node → Option Node
  | [] => none
  | [node] => some node
  | nodes => some (Node.ofList .sequence nodes)

/-- The tree of the branch behind the last bar. -/
def branch (a : Alternation) : Option Node :=
  branchOf a.elements.reverse

/-- Reads a bar, which closes the branch in front of it. -/
def bar (a : Alternation) (span : Span) : Alternation :=
  ⟨(a.branch, span) :: a.closed, []⟩

/-- Where the first empty branch between two bars stands: from the bar before it
to the bar behind it. -/
def emptyInner? : List (Option Node × Span) → Option Span
  | (_, before) :: (none, behind) :: _ => some (before.merge behind)
  | _ :: rest => emptyInner? rest
  | [] => none

/-- The tree of the filled branches of an alternation that has a bar. -/
def joinBranches? : List Node → Option Node
  | [] => none
  | [node] => some node
  | nodes => some (Node.ofList .choice nodes)

/-- The tree of an alternation whose branches in front of bars are `closed`, in order
and each with its bar, and whose last branch is `last`. -/
def treeOf (closed : List (Option Node × Span)) (last : Option Node) : Except Rule.Error Node :=
  match closed with
  | [] => .ok (last.getD (Node.container .sequence))
  | (first, bar) :: _ =>
    match emptyInner? closed with
    | some span => .error (.emptyAlternative span)
    | none =>
      match joinBranches? (closed.filterMap Prod.fst ++ last.toList) with
      | none => .error (.emptyAlternative bar)
      | some node =>
        let node := if last.isNone then Node.wrap .choiceRight node else node
        .ok (if first.isNone then Node.wrap .choiceLeft node else node)

/-- The tree of a complete alternation.  It is a fault if a branch between two
bars is empty, or if all branches are. -/
def tree (a : Alternation) : Except Rule.Error Node :=
  treeOf a.closed.reverse a.branch

end Alternation

end Railroad
