import Railroad.Batch
import Railroad.Proofs.Json.Depth
import Railroad.Proofs.Json.Trees
import Railroad.Proofs.Rail.RoundTrip

/-!
# Reading back what was written

The writer puts no limit on the depth of its texts, but the reader does.  What is written
is read back exactly if its text stays within that limit.  The grammar allows for trees
that are higher: the groups and loops of a rule may stand deeper inside of each other than
lists and objects may.

Main results:

- Theorem {lit}`Json.reads_written`: trees, rules and spans are read back from their texts if
  these are not too deep.
- Theorem {lit}`Rule.ofJson_render_tree`: which rules of sources are read back from their
  rendered trees.
-/

namespace Railroad

/-- A tree is read back if its height is within the limit. -/
theorem Node.ofJson_json (layout : Json.Layout) (node : Node) :
    Node.ofJson (node.json layout) =
      if node.height ≤ 64 then .ok node else .error .malformed := by
  have hlevels : 2 * node.height ≤ Json.maxLevels + 1 ↔ node.height ≤ 64 := by
    rw [Json.maxLevels]
    omega
  rw [Node.ofJson, ← if_congr hlevels rfl rfl]
  apply Json.whole_eq
  rw [Node.json, String.toList_ofList]
  exact Json.yields_node node _ 0

/-- A rule is read back if the height of its tree is within the limit. -/
theorem Rule.ofJson_json (layout : Json.Layout) (rule : Rule) :
    Rule.ofJson (rule.json layout) =
      if rule.root.height ≤ 63 then .ok rule else .error .malformed := by
  have hlevels : 2 * rule.root.height ≤ Json.maxLevels - 1 + 1 ↔ rule.root.height ≤ 63 := by
    rw [Json.maxLevels]
    omega
  rw [Rule.ofJson, ← if_congr hlevels rfl rfl]
  apply Json.whole_eq
  rw [Rule.json, String.toList_ofList]
  exact Json.yields_rule rule _

/-- A tree and a rule are read back from their texts if these nest lists and objects at
most 127 deep, and else the texts are malformed.  A span is read back if its ends fit
into 64 bits. -/
theorem Json.reads_written (layout : Layout) :
    (∀ node : Node, Node.ofJson (node.json layout) =
      if depth (node.json layout) ≤ 127 then .ok node else .error .malformed) ∧
    (∀ rule : Rule, Rule.ofJson (rule.json layout) =
      if depth (rule.json layout) ≤ 127 then .ok rule else .error .malformed) ∧
    ∀ span : Span, span.start < 2 ^ 64 → span.stop < 2 ^ 64 →
      Span.ofJson (span.json layout) = .ok span := by
  refine ⟨fun node => ?_, fun rule => ?_, fun span hstart hstop => ?_⟩
  · have hheight : 2 * node.height - 1 ≤ 127 ↔ node.height ≤ 64 := by omega
    rw [Node.ofJson_json, depth_node, if_congr hheight rfl rfl]
  · have hheight : 2 * rule.root.height ≤ 127 ↔ rule.root.height ≤ 63 := by omega
    rw [Rule.ofJson_json, depth_rule, if_congr hheight rfl rfl]
  · rw [Span.ofJson, whole_eq]
    rw [Span.json, String.toList_ofList]
    exact yields_span hstart hstop

/-- A leaf whose value holds a quote, a backslash, a control character and a character
that is not ASCII, below a kind that has no children in rules. -/
theorem Json.reads_written_remark :
    Node.ofJson (Node.json .pretty ⟨.terminal, "", [⟨.remark, "\"\\\x07é", []⟩]⟩) =
        .ok ⟨.terminal, "", [⟨.remark, "\"\\\x07é", []⟩]⟩ ∧
      Span.ofJson (Span.json .compact ⟨3, 2 ^ 64 - 1⟩) = .ok ⟨3, 2 ^ 64 - 1⟩ := by
  constructor
  · rw [(Json.reads_written .pretty).1]
    exact if_pos (by decide +kernel)
  · exact (Json.reads_written .compact).2.2 ⟨3, 2 ^ 64 - 1⟩ (by decide) (by decide)

namespace Rule

/-- The tree of a rule of a source is at most five times as high as its groups and loops
nest, plus five.  The rule is read back from its rendered tree if the height is not more
than 63, and else the text is malformed. -/
theorem ofJson_render_tree {source : String} {rule : Rule} (h : parse source = .ok (some rule)) :
    rule.root.height ≤ 5 * rule.root.nesting + 5 ∧
      Rule.ofJson (Batch.render .tree rule).text =
        if rule.root.height ≤ 63 then .ok rule else .error .malformed := by
  constructor
  · rcases (normal_of_parse_eq h).root with hempty | hbody
    · rw [hempty, Node.height_leaf]
      omega
    · exact hbody.height_le
  · exact ofJson_json .pretty rule

/-- A rule with a loop around a group that holds a choice. -/
def loopedGroup : Rule :=
  ⟨"r", ⟨.choiceRight, "", [⟨.sequence, "", [.terminal "'x'",
    ⟨.loop, "", [⟨.group, "", [⟨.choice, "", [.nonTerminal "a", .nonTerminal "b"]⟩]⟩]⟩]⟩]⟩⟩

/-- The tree is six nodes high, and the rule is read back. -/
theorem ofJson_render_tree_loop :
    parse "r : 'x' (a | b)+ | ;" = .ok (some loopedGroup) ∧ loopedGroup.root.height = 6 ∧
      loopedGroup.root.nesting = 2 ∧
      Rule.ofJson (Batch.render .tree loopedGroup).text = .ok loopedGroup := by
  have h : parse "r : 'x' (a | b)+ | ;" = .ok (some loopedGroup) := by
    decide +kernel
  refine ⟨h, by decide, by decide, ?_⟩
  rw [(ofJson_render_tree h).2]
  decide

/-- A name inside of a number of groups. -/
def groupedName (groups : Nat) : Rule :=
  ⟨"r", (fun node => ⟨.group, "", [node]⟩)^[groups] (.nonTerminal "a")⟩

/-- The source of that rule. -/
def groupedSource (groups : Nat) : String :=
  String.ofList ("r : ".toList ++ List.replicate groups '(' ++ ['a'] ++
    List.replicate groups ')' ++ " ;".toList)

/-- A name inside of 63 groups makes a tree that is rendered, but not read back. -/
theorem ofJson_render_tree_groups :
    parse (groupedSource 63) = .ok (some (groupedName 63)) ∧
      Rule.ofJson (Batch.render .tree (groupedName 63)).text = .error .malformed := by
  constructor
  · decide +kernel
  · exact (ofJson_json .pretty _).trans (if_neg (by decide +kernel))

end Rule

end Railroad
