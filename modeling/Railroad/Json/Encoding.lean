import Railroad.Json.Layout
import Railroad.Rule
import Railroad.Span

/-!
# Trees, rules and spans as JSON

A tree is an object with its kind, its value and its children, in this order; an
empty value and an empty list of children are left out.

Main definitions:

- Definitions {lit}`Node.json`, {lit}`Rule.json`, {lit}`Span.json`: the JSON texts.
-/

namespace Railroad

/-- A kind as JSON text. -/
def Kind.json (kind : Kind) : String :=
  String.ofList (Json.quote kind.name)

namespace Node

open Json in
mutual

/-- A tree as JSON text inside of `level` lists and objects. -/
def encode (layout : Layout) (level : Nat) : Node → List Char
  | ⟨kind, value, children⟩ =>
    object layout level <|
      member layout "kind" (quote kind.name) ::
        ((if value = "" then [] else [member layout "value" (quote value)]) ++
          (match children with
          | [] => []
          | _ :: _ =>
            [member layout "children"
              (list layout (level + 1) (encodeAll layout (level + 2) children))]))

/-- Trees as JSON texts inside of `level` lists and objects. -/
def encodeAll (layout : Layout) (level : Nat) : List Node → List (List Char)
  | [] => []
  | node :: nodes => node.encode layout level :: encodeAll layout level nodes

end

/-- A tree as JSON text. -/
def json (layout : Json.Layout) (node : Node) : String :=
  String.ofList (node.encode layout 0)

theorem encodeAll_eq_map (layout : Json.Layout) (level : Nat) (nodes : List Node) :
    encodeAll layout level nodes = nodes.map (encode layout level) := by
  induction nodes with
  | nil => rfl
  | cons node nodes ih => simp [encodeAll, ih]

end Node

open Json in
/-- A rule as the characters of its JSON text. -/
def Rule.encode (layout : Layout) (rule : Rule) : List Char :=
  object layout 0
    [member layout "name" (quote rule.name), member layout "root" (rule.root.encode layout 1)]

/-- A rule as JSON text. -/
def Rule.json (layout : Json.Layout) (rule : Rule) : String :=
  String.ofList (rule.encode layout)

open Json in
/-- A span as JSON text. -/
def Span.json (layout : Layout) (span : Span) : String :=
  String.ofList <| object layout 0
    [member layout "start" (number span.start), member layout "end" (number span.stop)]

end Railroad
