import Railroad.Rule.Reading
import Railroad.Token.Scanner

/-!
# Reading a rule by descent

A rule can also be read by functions that call each other along its grammar: an
alternation reads branches, a branch reads elements, and an element in parentheses reads
an alternation.  They take the tokens from a scanner, look at the next one before they
go on, and count the groups in which they stand.  Unlike a stack of open groups, the
scanner and the count stay behind when a fault ends the reading, and the next rule is
read with them.

Operations that are not defined on all operands are checked here: a part of a text must
exist, a list must be long enough, and a count must not fall below zero.  Loops and groups
inside of groups are bounded as well.  If a check fails or a bound is reached, there is no
outcome at all.

The functions say what is done in which order, and where one of them calls another.  They can
be carried out as they stand, or in a way that takes notice of the calls.

Main definitions:

- Definition {lit}`Descent`: a scanner and the number of open groups.
- Definition {lit}`Descent.Manner`: a way to carry out a descent.
- Definition {lit}`Descent.wholeRule`: reads the rule that makes up everything that is left.
- Definition {lit}`Descent.rule`: the same as a plain step.
- Definition {lit}`Descent.rules`: reads again and again.
-/

namespace Railroad

/-- Where a descent stands: its scanner, and how many groups are open. -/
structure Descent where
  scanner : Scanner
  depth : Nat
deriving DecidableEq, Repr, Inhabited

namespace Descent

/-- The descent in front of a source. -/
def ofSource (source : String) : Descent :=
  ⟨.ofSource source, 0⟩

/-- A piece of a descent: it moves on and ends with a value or with a fault, unless an
operation on the way cannot be carried out. -/
abbrev Step : Type → Type :=
  ExceptT Rule.Error (StateT Descent Option)

variable {α β : Type}

/-! ## Operations that may be impossible -/

/-- The value of an operation that cannot be carried out on all its operands. -/
def checked (value : Option α) : Step α :=
  fun d => value.map fun a => (.ok a, d)

/-- The difference of two counts, unless it would fall below zero. -/
def less? (m n : Nat) : Option Nat :=
  if n ≤ m then some (m - n) else none

/-! ## Tokens, places and groups -/

/-- Looks at the next token. -/
def look : Step (Option Token) := do
  let d ← get
  set { d with scanner := d.scanner.peek.2 }
  return d.scanner.peek.1

/-- Takes the next token. -/
def take : Step (Option Token) := do
  let d ← get
  set { d with scanner := d.scanner.next.2 }
  return d.scanner.next.1

/-- The part of the source that a span names. -/
def textAt (span : Span) : Step String := do
  checked ((← get).scanner.slice? span)

/-- The span behind the last byte of the source. -/
def sourceEnd : Step Span := do
  return .atEnd (Text.byteLength (← get).scanner.source.toList)

/-- Takes a token of a kind, and gives its span. -/
def expect (kind : Token.Kind) (what : String) : Step Span := do
  match ← take with
  | some t =>
    if t.kind = kind then return t.span
    else throw (.unexpectedToken what t.kind.text t.span)
  | none => throw (.unexpectedEnd what (← sourceEnd))

/-- How many groups are open. -/
def openGroups : Step Nat := do
  return (← get).depth

/-- Does a step with one more group open. -/
def Step.inGroup (step : Step α) : Step α := fun d => do
  let (outcome, d) ← step.run.run { d with depth := d.depth + 1 }
  let depth ← less? d.depth 1
  return (outcome, { d with depth })

/-! ## Trees of alternations -/

/-- The first branch between two bars that is empty, where `last` is the index of the
last branch: the branches from 1 up to and without `last` are asked. -/
def emptyInner? (branches : List (Option Node)) (last : Nat) : Step (Option Nat) :=
  (List.range' 1 (last - 1)).findM? fun i => do
    return (← checked branches[i]?).isNone

/-- The tree of the filled branches of an alternation with some bars. -/
def joinFilled (filled : List Node) (bars : List Span) : Step Node := do
  match filled.length with
  | 0 => throw (.emptyAlternative (← checked bars[0]?))
  | 1 => checked filled[0]?
  | _ => return Node.ofList .choice filled

/-- The tree of an alternation with the given branches and the bars between them. -/
def join (branches : List (Option Node)) (bars : List Span) : Step Node := do
  if bars.isEmpty then
    return branches.getLast?.join.getD (Node.container .sequence)
  else
    let last ← checked (less? branches.length 1)
    let leftmost ← checked branches[0]?
    let rightmost ← checked branches[last]?
    match ← emptyInner? branches last with
    | some i =>
      let before ← checked bars[← checked (less? i 1)]?
      let behind ← checked bars[i]?
      throw (.emptyAlternative (before.merge behind))
    | none =>
      let node ← joinFilled (branches.filterMap id) bars
      let node := if rightmost.isNone then Node.wrap .choiceRight node else node
      return if leftmost.isNone then Node.wrap .choiceLeft node else node

/-! ## Ends of elements -/

/-- The text between the brackets of an annotation, without the blanks around it. -/
def remarkText (text : String) : Step String := do
  let stop ← checked (less? (Text.byteLength text.toList) 1)
  let inner ← checked (Text.slice? text.toList ⟨1, stop⟩)
  return String.ofList (Text.trim inner)

/-- Reads the closing parenthesis of a group around `inner`, where the bracket of the
group covers `bracket`. -/
def closeGroup (bracket : Span) (inner : Node) : Step Node := do
  match ← take with
  | some t =>
    if t.kind = .closeParen then MonadExcept.ofExcept (Body.groupOf bracket inner)
    else throw (.unexpectedToken "')'" t.kind.text t.span)
  | none => throw (.unclosedDelimiter '(' bracket)

/-- Reads a plus sign behind an element in which `level` groups and loops stand above each
other. -/
def plusSign : Node × Nat → Step ((Node × Nat) ⊕ Node) := fun (node, level) => do
  match ← look with
  | some t =>
    if t.kind = .plus then
      let _ ← take
      if level + 1 > maxNesting then throw (.tooDeep maxNesting t.span)
      else return .inl (Node.wrap .loop node, level + 1)
    else return .inr node
  | none => return .inr node

/-! ## Ends of rules -/

/-- Takes a semicolon, if it is the next token. -/
def passSemicolon : Step Unit := do
  match ← look with
  | some t => if t.kind = .semicolon then discard take else return
  | none => return

/-- Refuses any token that is left. -/
def expectEnd : Step Unit := do
  match ← take with
  | some t => throw (.unexpectedToken "end of rule" t.kind.text t.span)
  | none => return

/-! ## Ways to carry out a descent -/

/-- A way to carry out the functions of a descent. -/
class Manner (m : Type → Type) where
  /-- Does a step. -/
  perform {α : Type} : Step α → m α
  /-- Calls a function.  The tree that it returns, if it returns one, is a part of its value. -/
  call {α : Type} (treeOf : α → Option Node) : m α → m α
  /-- Takes notice of a tree, of which the nesting is measured next. -/
  notice : Node → m Unit
  /-- Does something with one more group open. -/
  inGroup {α : Type} : m α → m α

export Manner (perform call notice inGroup)

/-- Carried out as it stands, a descent does its steps and nothing else. -/
instance : Manner Step where
  perform step := step
  call _ function := function
  notice _ := pure ()
  inGroup := Step.inGroup

variable {m : Type → Type} [Monad m] [Manner m]

/-- Repeats something until it gives a result, in at most `rounds` rounds. -/
def untilDone (round : α → m (α ⊕ β)) : Nat → α → m β
  | 0, _ => perform (checked none)
  | rounds + 1, a => do
    match ← round a with
    | .inl a => untilDone round rounds a
    | .inr b => return b

/-- Repeats something until it gives a result.  There are at most as many tokens left as
there are characters, and one that has been looked at; a round takes one of them or is the
last. -/
def repeatUntilDone (round : α → m (α ⊕ β)) (a : α) : m β := do
  untilDone round ((← perform get).scanner.unread.length + 2) a

/-! ## Elements -/

/-- Reads what stands behind the opening parenthesis of a group. -/
def group (alternatives : m Node) (bracket : Span) : m Node := call some do
  if (← perform openGroups) ≥ maxNesting then
    perform (throw (.tooDeep maxNesting bracket))
  else
    let inner ← inGroup alternatives
    notice inner
    perform (closeGroup bracket inner)

/-- Reads the element that a token begins, where the token and its text have been taken. -/
def elementOf (alternatives : m Node) (t : Token) (text : String) : m Node := do
  match t.kind with
  | .identifier => return Node.nonTerminal text
  | .terminal => return Node.terminal text
  | .remark => return Node.remark (← perform (remarkText text))
  | .openParen => group alternatives t.span
  | .openBracket | .singleQuote | .doubleQuote | .malformed =>
    perform (throw (Body.faultOf { t with text }))
  | .colon | .semicolon | .bar | .plus | .closeParen =>
    perform (throw (.unexpectedToken "element" t.kind.text t.span))

/-- Reads an element without the plus signs behind it. -/
def element (alternatives : m Node) : m Node := call some do
  match ← perform take with
  | some t => elementOf alternatives t (← perform (textAt t.span))
  | none => perform (do throw (.unexpectedEnd "element" (← sourceEnd)))

/-- Reads an element and the plus signs behind it. -/
def repeated (alternatives : m Node) : m Node := call some do
  let node ← element alternatives
  notice node
  repeatUntilDone (fun state => perform (plusSign state)) (node, node.nesting)

/-! ## Branches -/

/-- Reads one more element of a branch. -/
def nextElement (alternatives : m Node) (nodes : List Node) : m (List Node ⊕ List Node) := do
  match ← perform look with
  | some t =>
    if t.kind = .bar ∨ t.kind = .closeParen ∨ t.kind = .semicolon then return .inr nodes
    else return .inl (nodes ++ [← repeated alternatives])
  | none => return .inr nodes

/-- Reads a branch, which may be empty. -/
def branch (alternatives : m Node) : m (Option Node) := call id do
  let nodes ← repeatUntilDone (nextElement alternatives) []
  return Alternation.branchOf nodes

/-- Reads one more bar and the branch behind it. -/
def nextBranch (alternatives : m Node) :
    List (Option Node) × List Span →
      m ((List (Option Node) × List Span) ⊕ (List (Option Node) × List Span)) :=
  fun (branches, bars) => do
    match ← perform look with
    | some t =>
      if t.kind = .bar then
        let _ ← perform take
        return .inl (branches ++ [← branch alternatives], bars ++ [t.span])
      else return .inr (branches, bars)
    | none => return .inr (branches, bars)

/-- Reads an alternation, in which groups stand inside of each other less than `levels`
deep. -/
def alternatives : Nat → m Node
  | 0 => perform (checked none)
  | levels + 1 => call some do
    let first ← branch (alternatives levels)
    let (branches, bars) ← repeatUntilDone (nextBranch (alternatives levels)) ([first], [])
    perform (join branches bars)

/-! ## Rules -/

/-- Reads the rule that makes up everything that is left.  There is none if no token is
left. -/
def wholeRule : m (Option Rule) := call (Option.map Rule.root) do
  match ← perform look with
  | some _ =>
    let name ← perform (textAt (← perform (expect .identifier "rule name")))
    let _ ← perform (expect .colon "':'")
    let root ← alternatives (maxNesting + 1)
    perform passSemicolon
    perform expectEnd
    return some ⟨name, root⟩
  | none => return none

/-- Reads the rule that makes up everything that is left, as a plain step. -/
def rule : Step (Option Rule) :=
  wholeRule

/-- The outcomes of reading `n` rules, one after the other, and where the descent then
stands. -/
def rules : Nat → Descent → Option (List (Except Rule.Error (Option Rule)) × Descent)
  | 0, d => some ([], d)
  | n + 1, d => do
    let (outcome, d) ← rule.run.run d
    let (outcomes, d) ← rules n d
    return (outcome :: outcomes, d)

end Descent

end Railroad
