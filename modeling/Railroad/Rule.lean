import Railroad.Node

/-!
# Rules

A rule gives a tree a name.

Main definitions:

- Definition {lit}`Rule`: a name and the tree that it stands for.
-/

namespace Railroad

/-- A named rule of a grammar. -/
structure Rule where
  name : String
  root : Node
deriving DecidableEq, Repr, Inhabited

end Railroad
