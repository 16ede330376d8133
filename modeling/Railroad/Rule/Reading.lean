import Railroad.Rule.Alternation
import Railroad.Text.Blank
import Railroad.Token

/-!
# Reading a rule token by token

A rule is read from left to right by a machine whose memory is a stack of open
groups.  Every token takes it one step further or is refused with a fault, so a
fault depends only on the tokens up to the one where it is found.

Main definitions:

- Definition {lit}`Reading`: what is known of a rule when some of its tokens have
  been read.
- Definition {lit}`Reading.step`: the effect of one token.
- Definition {lit}`Reading.finish`: the effect of the end of the text.
-/

namespace Railroad

/-- The greatest nesting of groups and loops in a rule. -/
def maxNesting : Nat := 256

/-- A group that has been opened and not closed: its bracket, and what was read
of the alternation in which it stands. -/
structure OpenGroup where
  bracket : Span
  around : Alternation
deriving DecidableEq, Repr, Inhabited

/-- The body of a rule while it is read: the open groups, innermost first, and
the alternation that is being read inside of them. -/
structure Body where
  groups : List OpenGroup
  current : Alternation
deriving DecidableEq, Repr, Inhabited

/-- How far a rule has been read. -/
inductive Reading where
  /-- Nothing has been read. -/
  | start
  /-- The name has been read, but not the colon. -/
  | named (name : String)
  /-- The colon has been read. -/
  | body (name : String) (body : Body)
  /-- The semicolon has been read. -/
  | closed (name : String) (root : Node)
deriving DecidableEq, Repr, Inhabited

/-- The refusal of a token.  A token that shows that an alternation before it is
faulty is not read: it still stands in front of the reader. -/
structure Reading.Refusal where
  error : Rule.Error
  tokenRead : Bool
deriving DecidableEq, Repr, Inhabited

namespace Body

/-- The body of which nothing has been read. -/
def empty : Body :=
  ⟨[], .empty⟩

/-- Reads an element. -/
def push (b : Body) (node : Node) : Body :=
  { b with current := b.current.push node }

/-- The text between the brackets of an annotation, without the blanks around it. -/
def remarkText (text : String) : String :=
  String.ofList (Text.trim (text.toList.drop 1).dropLast)

/-- The fault of a token that is no token of the notation: an opener that is
never closed, or characters without a meaning. -/
def faultOf (t : Token) : Rule.Error :=
  match t.text.toList with
  | '[' :: _ => .unclosedDelimiter '[' t.span
  | '\'' :: _ => .unclosedDelimiter '\'' t.span
  | '"' :: _ => .unclosedDelimiter '"' t.span
  | _ => .invalidToken t.text t.span

/-- Opens a group. -/
def openGroup (b : Body) (span : Span) : Except Rule.Error Body :=
  if b.groups.length ≥ maxNesting then
    .error (.tooDeep maxNesting span)
  else
    .ok ⟨⟨span, b.current⟩ :: b.groups, .empty⟩

/-- The tree of a group around `inner`, where the bracket of the group covers
`span`.  A group around nothing has no children. -/
def groupOf (span : Span) (inner : Node) : Except Rule.Error Node :=
  if inner.isSequence ∧ inner.size = 0 then
    .ok (Node.container .group)
  else if inner.nesting ≥ maxNesting then
    .error (.tooDeep maxNesting span)
  else
    .ok (Node.wrap .group inner)

/-- Repeats the element in front of a plus sign. -/
def repeatLast (b : Body) (t : Token) : Except Rule.Error Body :=
  match b.current.elements with
  | [] => .error (.unexpectedToken "element" t.kind.text t.span)
  | node :: nodes =>
    if node.nesting + 1 > maxNesting then
      .error (.tooDeep maxNesting t.span)
    else
      .ok { b with current := { b.current with elements := Node.wrap .loop node :: nodes } }

/-- Reads a token that neither closes a group nor ends the body. -/
def step (b : Body) (t : Token) : Except Rule.Error Body :=
  match t.kind with
  | .identifier => .ok (b.push (Node.nonTerminal t.text))
  | .terminal => .ok (b.push (Node.terminal t.text))
  | .remark => .ok (b.push (Node.remark (remarkText t.text)))
  | .bar => .ok { b with current := b.current.bar t.span }
  | .openParen => b.openGroup t.span
  | .plus => b.repeatLast t
  | .openBracket | .singleQuote | .doubleQuote | .malformed => .error (faultOf t)
  | .colon | .semicolon | .closeParen => .error (.unexpectedToken "element" t.kind.text t.span)

end Body

namespace Reading

/-- Takes the outcome of a token that has been read in any case. -/
def ofRead {α : Type} : Except Rule.Error α → Except Refusal α
  | .ok a => .ok a
  | .error e => .error ⟨e, true⟩

/-- Takes the tree of an alternation which the next token, not yet read, completes. -/
def complete (a : Alternation) : Except Refusal Node :=
  match a.tree with
  | .ok node => .ok node
  | .error e => .error ⟨e, false⟩

/-- Refuses a token that stands where something else was expected. -/
def expected {α : Type} (what : String) (t : Token) : Except Refusal α :=
  .error ⟨.unexpectedToken what t.kind.text t.span, true⟩

/-- Reads a closing parenthesis. -/
def closeGroup (name : String) (b : Body) (t : Token) : Except Refusal Reading := do
  let inner ← complete b.current
  match b.groups with
  | [] => expected "end of rule" t
  | group :: groups =>
    let node ← ofRead (Body.groupOf group.bracket inner)
    return body name ⟨groups, group.around.push node⟩

/-- Reads a semicolon. -/
def closeBody (name : String) (b : Body) (t : Token) : Except Refusal Reading := do
  let root ← complete b.current
  match b.groups with
  | [] => return closed name root
  | _ :: _ => expected "')'" t

/-- Reads one token. -/
def step (r : Reading) (t : Token) : Except Refusal Reading :=
  match r with
  | start => if t.kind = .identifier then .ok (named t.text) else expected "rule name" t
  | named name => if t.kind = .colon then .ok (body name .empty) else expected "':'" t
  | body name b =>
    match t.kind with
    | .closeParen => closeGroup name b t
    | .semicolon => closeBody name b t
    | _ => (ofRead (b.step t)).map (body name)
  | closed _ _ => expected "end of rule" t

/-- What has been read when the text, of `size` bytes, is at its end.  There is
no rule in a text without tokens. -/
def finish (size : Nat) : Reading → Except Rule.Error (Option Rule)
  | start => .ok none
  | named _ => .error (.unexpectedEnd "':'" (.atEnd size))
  | body name b => do
    let root ← b.current.tree
    match b.groups with
    | [] => return some ⟨name, root⟩
    | group :: _ => throw (.unclosedDelimiter '(' group.bracket)
  | closed name root => .ok (some ⟨name, root⟩)

/-- Reads tokens until the last one or a refusal, and tells which tokens have
then not been read. -/
def run (size : Nat) (r : Reading) : List Token → Except Rule.Error (Option Rule) × List Token
  | [] => (r.finish size, [])
  | t :: ts =>
    match r.step t with
    | .ok r' => r'.run size ts
    | .error refusal => (.error refusal.error, if refusal.tokenRead then ts else t :: ts)

end Reading

end Railroad
