import Railroad.Rule.Reading

/-!
# The grammar of rules

A rule is written as its name, a colon, a body and an optional semicolon.  The
body is a row of branches with bars between them, each branch a row of elements,
and an element is a leaf or a bracketed group with any number of plus signs
behind it.  A derivation says how a list of tokens comes from this grammar, and
which tree it stands for.  The grammar knows no limit on the nesting, and it
allows empty branches anywhere.

Main definitions:

- Definitions {lit}`Grammar.Element`, {lit}`Grammar.Branch`,
  {lit}`Grammar.Alternatives` and {lit}`Grammar.Sentence`: derivations.
- Definition {lit}`Grammar.Sentence.tokens`: the tokens that are derived.
- Definition {lit}`Grammar.Sentence.rule`: the rule that a derivation stands for.
- Definition {lit}`Grammar.Filled`: no branch of an alternation is empty where
  none may be.
-/

namespace Railroad

/-- A token that is known to be of a kind. -/
abbrev Token.OfKind (kind : Token.Kind) : Type :=
  {t : Token // t.kind = kind}

namespace Grammar

/-! ## Derivations -/

mutual

/-- A derivation of an element: a name, a terminal, a remark or a group, and any
number of plus signs behind it. -/
inductive Element where
  | name (t : Token.OfKind .identifier)
  | terminal (t : Token.OfKind .terminal)
  | remark (t : Token.OfKind .remark)
  | group (opening : Token.OfKind .openParen) (inner : Alternatives)
      (closing : Token.OfKind .closeParen)
  | loop (element : Element) (plus : Token.OfKind .plus)

/-- A derivation of a branch: any number of elements. -/
inductive Branch where
  | empty
  | snoc (front : Branch) (element : Element)

/-- A derivation of an alternation: one branch, or several with a bar between any
two neighbours. -/
inductive Alternatives where
  | single (branch : Branch)
  | snoc (front : Alternatives) (bar : Token.OfKind .bar) (branch : Branch)

end

/-- A derivation of a rule. -/
structure Sentence where
  name : Token.OfKind .identifier
  colon : Token.OfKind .colon
  body : Alternatives
  semicolon : Option (Token.OfKind .semicolon)

/-! ## Derived tokens -/

mutual

/-- The tokens of an element. -/
def Element.tokens : Element → List Token
  | .name t => [t.val]
  | .terminal t => [t.val]
  | .remark t => [t.val]
  | .group opening inner closing => opening.val :: (inner.tokens ++ [closing.val])
  | .loop element plus => element.tokens ++ [plus.val]

/-- The tokens of a branch. -/
def Branch.tokens : Branch → List Token
  | .empty => []
  | .snoc front element => front.tokens ++ element.tokens

/-- The tokens of an alternation. -/
def Alternatives.tokens : Alternatives → List Token
  | .single branch => branch.tokens
  | .snoc front bar branch => front.tokens ++ bar.val :: branch.tokens

end

/-- The tokens of a rule. -/
def Sentence.tokens (d : Sentence) : List Token :=
  d.name.val :: d.colon.val :: (d.body.tokens ++ (d.semicolon.map Subtype.val).toList)

/-! ## Trees -/

/-- The tree of a branch with the given elements: none without elements, the
element itself if it is the only one, else a sequence of the elements. -/
def branchTree : List Node → Option Node
  | [] => none
  | [node] => some node
  | nodes => some ⟨.sequence, "", nodes⟩

/-- The only one of some trees, or a choice between them. -/
def choiceTree : List Node → Node
  | [node] => node
  | nodes => ⟨.choice, "", nodes⟩

/-- A tree made optional from the right, and then from the left. -/
def optionalTree (left right : Bool) (node : Node) : Node :=
  let node := if right then ⟨.choiceRight, "", [node]⟩ else node
  if left then ⟨.choiceLeft, "", [node]⟩ else node

/-- The tree of an alternation with the given branches, of which the empty ones
have no tree.  Without a bar it is its branch, or an empty sequence.  With a bar
it is its only filled branch, or a choice between those, made optional from the
right by an empty last branch and from the left by an empty first one. -/
def alternationTree : List (Option Node) → Node
  | [branch] => branch.getD ⟨.sequence, "", []⟩
  | branches =>
    optionalTree (branches.head? = some none) (branches.getLast? = some none)
      (choiceTree (branches.filterMap id))

/-- The children of a group around an alternation with the given branches. -/
def groupChildren : List (Option Node) → List Node
  | [none] => []
  | branches => [alternationTree branches]

mutual

/-- The tree of an element. -/
def Element.tree : Element → Node
  | .name t => ⟨.nonTerminal, t.val.text, []⟩
  | .terminal t => ⟨.terminal, t.val.text, []⟩
  | .remark t => ⟨.remark, Body.remarkText t.val.text, []⟩
  | .group _ inner _ => ⟨.group, "", groupChildren inner.branches⟩
  | .loop element _ => ⟨.loop, "", [element.tree]⟩

/-- The trees of the elements of a branch, in order. -/
def Branch.trees : Branch → List Node
  | .empty => []
  | .snoc front element => front.trees ++ [element.tree]

/-- The trees of the branches of an alternation, in order. -/
def Alternatives.branches : Alternatives → List (Option Node)
  | .single branch => [branchTree branch.trees]
  | .snoc front _ branch => front.branches ++ [branchTree branch.trees]

end

/-- The tree of an alternation. -/
def Alternatives.tree (a : Alternatives) : Node :=
  alternationTree a.branches

/-- The rule that a derivation stands for. -/
def Sentence.rule (d : Sentence) : Rule :=
  ⟨d.name.val.text, d.body.tree⟩

/-! ## Empty branches -/

/-- An alternation with the given branches has no empty one where none may be:
if it has a bar, then no branch between two bars is empty, and some branch is
filled. -/
def Filled (branches : List (Option Node)) : Prop :=
  1 < branches.length →
    (∀ branch ∈ branches.tail.dropLast, branch ≠ none) ∧ ∃ branch ∈ branches, branch ≠ none

mutual

/-- The alternations inside of an element, in the order in which they end. -/
def Element.alternations : Element → List Alternatives
  | .name _ => []
  | .terminal _ => []
  | .remark _ => []
  | .group _ inner _ => inner.innerAlternations ++ [inner]
  | .loop element _ => element.alternations

/-- The alternations inside of a branch, in the order in which they end. -/
def Branch.alternations : Branch → List Alternatives
  | .empty => []
  | .snoc front element => front.alternations ++ element.alternations

/-- The alternations inside of the branches of an alternation, in the order in
which they end. -/
def Alternatives.innerAlternations : Alternatives → List Alternatives
  | .single branch => branch.alternations
  | .snoc front _ branch => front.innerAlternations ++ branch.alternations

end

/-- The alternations of a rule, in the order in which they end. -/
def Sentence.alternations (d : Sentence) : List Alternatives :=
  d.body.innerAlternations ++ [d.body]

/-- No alternation of a rule has an empty branch where none may be. -/
def Sentence.Filled (d : Sentence) : Prop :=
  ∀ a ∈ d.alternations, Grammar.Filled a.branches

end Grammar

end Railroad
