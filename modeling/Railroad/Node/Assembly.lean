import Railroad.Node

/-!
# Building trees step by step

A tree can be built by a list of steps over named slots.  Reading a slot copies
the tree in it, and a step changes only the slot that it names first.

Main definitions:

- Definition {lit}`Assembly.Step`: the steps.
- Definition {lit}`Assembly.run`: the slots after some steps.
-/

namespace Railroad.Assembly

/-- Trees by the names of their slots. -/
abbrev Slots := String → Option Node

/-- One step, which names the slot for its result first. -/
inductive Step where
  /-- A leaf.  Terminals, names and remarks are the leaves of these kinds. -/
  | leaf (slot : String) (kind : Kind) (value : String)
  | container (slot : String) (kind : Kind)
  | wrap (slot : String) (kind : Kind) (child : String)
  | extend (slot base child : String)
  | add (slot child : String)
  | addPair (slot first second : String)
deriving DecidableEq, Repr, Inhabited

namespace Step

/-- The slot that a step fills. -/
def slot : Step → String
  | leaf slot _ _ => slot
  | container slot _ => slot
  | wrap slot _ _ => slot
  | extend slot _ _ => slot
  | add slot _ => slot
  | addPair slot _ _ => slot

/-- The tree that a step makes.  There is none if a slot that it reads is empty. -/
def result (slots : Slots) : Step → Option Node
  | leaf _ kind value => some (Node.leaf kind value)
  | container _ kind => some (Node.container kind)
  | wrap _ kind child => do return Node.wrap kind (← slots child)
  | extend _ base child => do return (← slots base).add (← slots child)
  | add slot child => do return (← slots slot).add (← slots child)
  | addPair slot first second => do
    return (← slots slot).addPair (← slots first) (← slots second)

end Step

/-- No slot filled. -/
def noSlots : Slots :=
  fun _ => none

/-- The slots with a tree put into one of them. -/
def fill (slots : Slots) (slot : String) (node : Node) : Slots :=
  fun name => if name = slot then some node else slots name

/-- Takes one step.  It fails if a slot that it reads is empty. -/
def exec (slots : Slots) (step : Step) : Option (Node × Slots) :=
  (step.result slots).map fun node => (node, fill slots step.slot node)

/-- Takes steps one after the other. -/
def run (slots : Slots) : List Step → Option Slots
  | [] => some slots
  | step :: steps => do
    let (_, slots) ← exec slots step
    run slots steps

end Railroad.Assembly
