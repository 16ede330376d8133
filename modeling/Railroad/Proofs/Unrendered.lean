import Railroad.Proofs.Diagram.Arguments

/-!
# What is not rendered

A node of the kind that nothing renders is reported and adds nothing to a text, and the same
goes for all that stands below it.  It counts as a child nevertheless, so that it is rendered
just as an empty sequence would be.  What stands below a terminal or a name is not looked at,
nor is, in rail text, what stands below a remark.

Main definitions:

- Definition {lit}`Node.withoutSingles`: a tree in which empty sequences replace what is not
  rendered.
- Definition {lit}`Node.ways`: the ways to all nodes of a tree.
- Definition {lit}`Node.reports`: a report for each node that is not rendered, unless a node
  above hides it.

Main results:

- Theorem {lit}`Node.render_withoutSingles`: what is not rendered can be replaced.
- Theorem {lit}`Node.eq_reports`: reports that go down a tree as far as the hiding nodes.
- Theorem {lit}`Node.only_singles_reported`: what the renderers report, and what would be left
  of a text without it.
-/

namespace Railroad

/-- Renderings with the same texts have the same text in a row. -/
theorem Rendering.text_join_congr {separator : String} {rs ss : List Rendering}
    (h : rs.map text = ss.map text) : (join separator rs).text = (join separator ss).text := by
  induction rs generalizing ss with
  | nil =>
    obtain rfl : ss = [] := by simpa using h.symm
    rfl
  | cons r rs ih =>
    match ss with
    | s :: ss =>
      rw [List.map_cons, List.map_cons, List.cons.injEq] at h
      obtain ⟨hhead, htail⟩ := h
      have hrest := ih htail
      match rs, ss with
      | [], [] => exact hhead
      | next :: rest, next' :: rest' =>
        rw [join, join, text_append, text_append, text_append, text_append, hhead, hrest]

namespace Node

/-! ## Trees without what is not rendered -/

mutual

/-- The tree with an empty sequence in the place of each `choiceSingle` and of what stands
below it. -/
def withoutSingles : Node → Node
  | ⟨kind, value, children⟩ =>
    if kind = .choiceSingle then container .sequence
    else ⟨kind, value, withoutSinglesAll children⟩

/-- Trees with such empty sequences. -/
def withoutSinglesAll : List Node → List Node
  | [] => []
  | node :: nodes => node.withoutSingles :: withoutSinglesAll nodes

end

theorem withoutSinglesAll_eq_map (nodes : List Node) :
    withoutSinglesAll nodes = nodes.map withoutSingles := by
  induction nodes with
  | nil => rfl
  | cons node nodes ih => rw [withoutSinglesAll, ih, List.map_cons]

/-- An empty sequence takes the place of a `choiceSingle`, whatever stands below. -/
theorem withoutSingles_of_eq {node : Node} (h : node.kind = .choiceSingle) :
    node.withoutSingles = container .sequence := by
  cases node
  rw [withoutSingles, if_pos h]

/-- Other nodes keep their kinds and values. -/
theorem withoutSingles_of_ne {node : Node} (h : node.kind ≠ .choiceSingle) :
    node.withoutSingles = ⟨node.kind, node.value, node.children.map withoutSingles⟩ := by
  cases node
  rw [withoutSingles, if_neg h, withoutSinglesAll_eq_map]

/-- No `choiceSingle` is left. -/
theorem kind_ne_of_subtree_withoutSingles {node below : Node}
    (h : node.withoutSingles.Subtree below) : below.kind ≠ .choiceSingle := by
  induction node using childrenInduction with
  | node node ih =>
    by_cases hsingle : node.kind = .choiceSingle
    · rw [withoutSingles_of_eq hsingle] at h
      cases h with
      | root => simp [container]
      | child hmem hbelow => cases hmem
    · rw [withoutSingles_of_ne hsingle] at h
      cases h with
      | root => exact hsingle
      | child hmem hbelow =>
        obtain ⟨child, hchild, rfl⟩ := List.mem_map.mp hmem
        exact ih child hchild hbelow

/-- What depends on the kind and the value of a node, and on the same of its children, stays
the same if a `choiceSingle` is as good as an empty sequence. -/
theorem eq_withoutSingles {α : Type} (view : Node → α)
    (hcongr : ∀ kind value nodes nodes', nodes.map view = nodes'.map view →
      view ⟨kind, value, nodes⟩ = view ⟨kind, value, nodes'⟩)
    (hsingle : ∀ value nodes, view ⟨.choiceSingle, value, nodes⟩ = view (container .sequence))
    (node : Node) : view node.withoutSingles = view node := by
  induction node using childrenInduction with
  | node node ih =>
    rcases node with ⟨kind, value, nodes⟩
    by_cases hkind : kind = .choiceSingle
    · rw [withoutSingles_of_eq hkind, hkind, hsingle]
    · rw [withoutSingles_of_ne hkind]
      apply hcongr
      rw [List.map_map]
      exact List.map_congr_left ih

/-! ## Texts -/

/-- The rail text of a node depends on its kind, its value and the texts of its children. -/
theorem text_rail_congr (kind : Kind) (value : String) (nodes nodes' : List Node)
    (h : nodes.map (fun node => node.rail.text) = nodes'.map fun node => node.rail.text) :
    (rail ⟨kind, value, nodes⟩).text = (rail ⟨kind, value, nodes'⟩).text := by
  have hjoin (separator : String) : (Rendering.join separator (railAll nodes)).text =
      (Rendering.join separator (railAll nodes')).text := by
    apply Rendering.text_join_congr
    rw [railAll_eq_map, railAll_eq_map, List.map_map, List.map_map]
    exact h
  cases kind <;> simp [rail, Rendering.between, hjoin]

/-- The calls for a node depend on its kind, its value and the calls for its children. -/
theorem text_diagram_congr (kind : Kind) (value : String) (nodes nodes' : List Node)
    (h : nodes.map (fun node => node.diagram.text) = nodes'.map fun node => node.diagram.text) :
    (diagram ⟨kind, value, nodes⟩).text = (diagram ⟨kind, value, nodes'⟩).text := by
  have hjoin (separator : String) : (Rendering.join separator (diagramAll nodes)).text =
      (Rendering.join separator (diagramAll nodes')).text := by
    apply Rendering.text_join_congr
    rw [diagramAll_eq_map, diagramAll_eq_map, List.map_map, List.map_map]
    exact h
  have hcall (opening : String) : (callIfAny opening (diagramAll nodes)).text =
      (callIfAny opening (diagramAll nodes')).text := by
    match nodes, nodes' with
    | [], [] => rfl
    | first :: rest, first' :: rest' =>
      have harguments := hjoin ", "
      rw [diagramAll, diagramAll] at harguments ⊢
      rw [callIfAny, callIfAny, Rendering.between, Rendering.between, harguments]
  cases kind <;> simp [diagram, Rendering.between, hjoin, hcall]

/-! ## Reports -/

mutual

/-- The ways from the root of a tree to its nodes, by the kinds on them: from left to right,
and to each node before those below it. -/
def ways : Node → List (List Kind)
  | ⟨kind, _, children⟩ => [kind] :: (waysAll children).map (kind :: ·)

/-- The ways from the roots of some trees. -/
def waysAll : List Node → List (List Kind)
  | [] => []
  | node :: nodes => node.ways ++ waysAll nodes

end

theorem waysAll_eq_flatMap (nodes : List Node) : waysAll nodes = nodes.flatMap ways := by
  induction nodes with
  | nil => rfl
  | cons node nodes ih => rw [waysAll, ih, List.flatMap_cons]

/-- The way to a node goes through those above it. -/
theorem ways_eq (node : Node) :
    node.ways = [node.kind] :: (node.children.flatMap ways).map (node.kind :: ·) := by
  cases node
  rw [ways, waysAll_eq_flatMap]

/-- Each way has at least the root on it. -/
theorem ne_nil_of_mem_ways {node : Node} {way : List Kind} (h : way ∈ node.ways) : way ≠ [] := by
  rw [ways_eq, List.mem_cons, List.mem_map] at h
  rcases h with rfl | ⟨rest, -, rfl⟩
  · exact List.cons_ne_nil _ _
  · exact List.cons_ne_nil _ _

/-- A way leads to a `choiceSingle`, and no node above that is of a kind that hides what stands
below. -/
def LeadsToSingle (hides way : List Kind) : Prop :=
  way.getLast? = some .choiceSingle ∧ ∀ kind ∈ way.dropLast, kind ∉ hides

instance (hides : List Kind) : DecidablePred (LeadsToSingle hides) :=
  fun _ => inferInstanceAs (Decidable (_ ∧ _))

/-- A report for each `choiceSingle` in a tree, unless a node above hides it. -/
def reports (hides : List Kind) (node : Node) : List Diagnostic :=
  (node.ways.filter (LeadsToSingle hides ·)).map fun _ => .unexpectedKind .choiceSingle

/-- The reports on a tree by the kind of its root, where `below` are those on its children. -/
def reportsOver (hides : List Kind) (kind : Kind) (below : List Diagnostic) : List Diagnostic :=
  if kind = .choiceSingle then [.unexpectedKind .choiceSingle]
  else if kind ∈ hides then []
  else below

variable {hides : List Kind}

theorem leadsToSingle_singleton {kind : Kind} :
    LeadsToSingle hides [kind] ↔ kind = .choiceSingle := by
  simp [LeadsToSingle]

/-- A longer way begins at a node that hides nothing. -/
theorem leadsToSingle_cons {kind : Kind} {way : List Kind} (hway : way ≠ []) :
    LeadsToSingle hides (kind :: way) ↔ kind ∉ hides ∧ LeadsToSingle hides way := by
  match way with
  | next :: rest =>
    rw [LeadsToSingle, LeadsToSingle, List.getLast?_cons_cons, List.dropLast_cons_cons,
      List.forall_mem_cons]
    exact and_left_comm

/-- The ways through a node that lead to a `choiceSingle`. -/
theorem filter_map_ways (kind : Kind) (nodes : List Node) :
    ((nodes.flatMap ways).map (kind :: ·)).filter (LeadsToSingle hides ·) =
      if kind ∈ hides then []
      else ((nodes.flatMap ways).filter (LeadsToSingle hides ·)).map (kind :: ·) := by
  have hcons : ∀ way ∈ nodes.flatMap ways,
      (LeadsToSingle hides (kind :: way) ↔ kind ∉ hides ∧ LeadsToSingle hides way) := by
    intro way hway
    obtain ⟨node, -, hmem⟩ := List.mem_flatMap.mp hway
    exact leadsToSingle_cons (ne_nil_of_mem_ways hmem)
  rw [List.filter_map]
  by_cases hkind : kind ∈ hides
  · rw [if_pos hkind, List.map_eq_nil_iff, List.filter_eq_nil_iff]
    intro way hway
    simp [hcons way hway, hkind]
  · rw [if_neg hkind]
    congr 1
    apply List.filter_congr
    intro way hway
    simp [hcons way hway, hkind]

/-- The reports on a tree from those on its children. -/
theorem reports_eq (hsingle : .choiceSingle ∈ hides) (node : Node) :
    node.reports hides = reportsOver hides node.kind (node.children.flatMap (reports hides)) := by
  rw [reports, ways_eq, List.filter_cons, filter_map_ways, reportsOver]
  by_cases hkind : node.kind = .choiceSingle
  · simp [leadsToSingle_singleton, hkind, hsingle]
  · by_cases hhides : node.kind ∈ hides
    · simp [leadsToSingle_singleton, hkind, hhides]
    · simp only [leadsToSingle_singleton, hkind, hhides, decide_false, Bool.false_eq_true,
        if_false, List.map_map, List.filter_flatMap, List.map_flatMap]
      rfl

/-- What is reported of each node as `reports` are is those. -/
theorem eq_reports (diagnostics : Node → List Diagnostic) (hsingle : .choiceSingle ∈ hides)
    (h : ∀ node, diagnostics node =
      reportsOver hides node.kind (node.children.flatMap diagnostics)) (node : Node) :
    diagnostics node = node.reports hides := by
  induction node using childrenInduction with
  | node node ih =>
    rw [h, reports_eq hsingle]
    congr 1
    exact List.flatMap_congr ih

/-- There is nothing to report on a tree without a `choiceSingle`. -/
theorem reports_eq_nil (hsingle : .choiceSingle ∈ hides) {node : Node}
    (h : ∀ below, node.Subtree below → below.kind ≠ .choiceSingle) : node.reports hides = [] := by
  induction node using childrenInduction with
  | node node ih =>
    have hchildren : node.children.flatMap (reports hides) = [] := by
      rw [List.flatMap_eq_nil_iff]
      intro child hmem
      exact ih child hmem fun below hbelow => h below (.child hmem hbelow)
    rw [reports_eq hsingle, reportsOver, if_neg (h node (.root node)), hchildren, ite_self]

/-! ## Both renderers -/

/-- Rail text shows neither what stands below leaves nor what stands below a `choiceSingle`. -/
theorem diagnostics_rail (node : Node) :
    node.rail.diagnostics =
      node.reports [.remark, .choiceSingle, .terminal, .nonTerminal] := by
  have hsingle : Kind.choiceSingle ∈ [Kind.remark, .choiceSingle, .terminal, .nonTerminal] :=
    List.mem_cons_of_mem _ List.mem_cons_self
  apply eq_reports (fun node => node.rail.diagnostics) hsingle
  rintro ⟨kind, value, nodes⟩
  have hjoin (separator : String) : (Rendering.join separator (railAll nodes)).diagnostics =
      nodes.flatMap fun node => node.rail.diagnostics := by
    rw [Rendering.diagnostics_join, railAll_eq_map, List.flatMap_map]
  cases kind <;>
    simp [rail, reportsOver, Rendering.between, Rendering.ofText, Rendering.report, hjoin]

/-- Calls show what stands below a remark, but not what stands below other leaves. -/
theorem diagnostics_diagram (node : Node) :
    node.diagram.diagnostics = node.reports [.choiceSingle, .terminal, .nonTerminal] := by
  apply eq_reports (fun node => node.diagram.diagnostics) List.mem_cons_self
  rintro ⟨kind, value, nodes⟩
  have hjoin (separator : String) : (Rendering.join separator (diagramAll nodes)).diagnostics =
      nodes.flatMap fun node => node.diagram.diagnostics := by
    rw [Rendering.diagnostics_join, diagramAll_eq_map, List.flatMap_map]
  have hcall (opening : String) : (callIfAny opening (diagramAll nodes)).diagnostics =
      nodes.flatMap fun node => node.diagram.diagnostics := by
    rw [← hjoin ", "]
    cases nodes <;> rfl
  cases kind <;>
    simp [diagram, reportsOver, Rendering.between, Rendering.ofText, Rendering.report, hjoin, hcall]

/-- Remarks without children hide nothing. -/
theorem reports_cons_remark {node : Node} (hsingle : .choiceSingle ∈ hides)
    (h : ∀ below, node.Subtree below → below.kind = .remark → below.children = []) :
    node.reports (.remark :: hides) = node.reports hides := by
  induction node using childrenInduction with
  | node node ih =>
    have hchildren : node.children.flatMap (reports (.remark :: hides)) =
        node.children.flatMap (reports hides) := by
      apply List.flatMap_congr
      intro child hmem
      exact ih child hmem fun below hbelow => h below (.child hmem hbelow)
    rw [reports_eq hsingle, reports_eq (List.mem_cons_of_mem _ hsingle), hchildren]
    by_cases hkind : node.kind = .remark
    · rw [h node (.root node) hkind]
      simp [reportsOver]
    · simp [reportsOver, hkind]

/-- Trees in normal form have no `choiceSingle`. -/
theorem Normal.kind_ne_choiceSingle {layer : Layer} {node : Node} (h : Normal layer node) :
    node.kind ≠ .choiceSingle := by
  induction h with
  | single h ih | only h ih | notRight h ih | notLeft h ih => exact ih
  | _ => simp

end Node

/-- Rules in normal form are rendered without reports. -/
theorem Rule.Normal.reports_root {rule : Rule} (h : rule.Normal) {hides : List Kind}
    (hsingle : .choiceSingle ∈ hides) : rule.root.reports hides = [] := by
  apply Node.reports_eq_nil hsingle
  intro below hbelow
  rcases h.root with hempty | hbody
  · rw [hempty] at hbelow
    cases hbelow with
    | root => simp
    | child hmem hbelow => cases hmem
  · obtain ⟨layer, hnormal⟩ := hbody.of_subtree hbelow
    exact hnormal.kind_ne_choiceSingle

namespace Node

/-- Without its `choiceSingle` nodes a tree is rendered to the same text and without reports. -/
theorem render_withoutSingles {render : Node → Rendering} {hides : List Kind}
    (hcongr : ∀ kind value nodes nodes',
      (nodes.map fun node => (render node).text) = (nodes'.map fun node => (render node).text) →
        (render ⟨kind, value, nodes⟩).text = (render ⟨kind, value, nodes'⟩).text)
    (hsingle : ∀ value nodes,
      (render ⟨.choiceSingle, value, nodes⟩).text = (render (container .sequence)).text)
    (hreports : ∀ node, (render node).diagnostics = node.reports hides)
    (hhides : .choiceSingle ∈ hides) (node : Node) :
    render node.withoutSingles = ⟨(render node).text, []⟩ := by
  have htext : (render node.withoutSingles).text = (render node).text :=
    eq_withoutSingles (fun node => (render node).text) hcongr hsingle node
  have hnothing : (render node.withoutSingles).diagnostics = [] := by
    rw [hreports]
    exact reports_eq_nil hhides fun _ => kind_ne_of_subtree_withoutSingles
  exact Rendering.ext htext hnothing

/-- If empty sequences take the places of all `choiceSingle` nodes of a tree, its rail text and
the calls that draw it stay the same, and nothing is reported any more.  In the tree as it is,
each `choiceSingle` is reported once, and nothing else is, unless it stands below another one,
a terminal or a name, or for rail text below a remark.  So the reports differ only where remarks
have children, and there are none on rules that are read. -/
theorem only_singles_reported :
    (∀ node : Node,
      node.withoutSingles.rail = ⟨node.rail.text, []⟩ ∧
      node.withoutSingles.diagram = ⟨node.diagram.text, []⟩ ∧
      node.rail.diagnostics =
        node.reports [.remark, .choiceSingle, .terminal, .nonTerminal] ∧
      node.diagram.diagnostics = node.reports [.choiceSingle, .terminal, .nonTerminal] ∧
      ((∀ below, node.Subtree below → below.kind = .remark → below.children = []) →
        node.rail.diagnostics = node.diagram.diagnostics)) ∧
    ∀ source rule, Rule.parse source = .ok (some rule) →
      rule.rail.isClean ∧ rule.diagram.isClean := by
  constructor
  · intro node
    refine ⟨render_withoutSingles text_rail_congr (fun _ _ => rfl) diagnostics_rail (by simp) node,
      render_withoutSingles text_diagram_congr (fun _ _ => rfl) diagnostics_diagram
        List.mem_cons_self node,
      diagnostics_rail node, diagnostics_diagram node, ?_⟩
    intro hremarks
    rw [diagnostics_rail, diagnostics_diagram]
    exact reports_cons_remark List.mem_cons_self hremarks
  · intro source rule hparse
    have hnormal := Rule.normal_of_parse_eq hparse
    have hrail : rule.rail.diagnostics = [] := by
      have hroot : rule.rail.diagnostics = rule.root.rail.diagnostics := rfl
      rw [hroot, diagnostics_rail]
      exact hnormal.reports_root (by simp)
    have hdiagram : rule.diagram.diagnostics = [] := by
      have hroot : rule.diagram.diagnostics = rule.root.diagram.diagnostics := rfl
      rw [hroot, diagnostics_diagram]
      exact hnormal.reports_root (by simp)
    rw [Rendering.isClean, Rendering.isClean, hrail, hdiagram]
    exact ⟨rfl, rfl⟩

/-- A node that is not rendered, with another one below it. -/
def singleInSingle : Node :=
  ⟨.choiceSingle, "x", [⟨.choiceSingle, "", []⟩]⟩

/-- Of two nodes that are not rendered one stands below a remark, where only calls show it; and
below each of them stands another one, where neither renderer looks. -/
def singleBelowRemark : Node :=
  ⟨.choice, "", [singleInSingle, ⟨.remark, "r", [singleInSingle]⟩, .terminal "'a'"]⟩

/-- A node that is not rendered, beside a remark without children. -/
def singleBesideRemark : Node :=
  ⟨.choice, "", [⟨.choiceSingle, "", []⟩, .remark "r"]⟩

/-- A rule that is read: an optional loop with a remark. -/
def optionalRemark : Rule :=
  ⟨"r", ⟨.choiceRight, "", [⟨.loop, "", [⟨.group, "", [⟨.sequence, "",
    [.nonTerminal "a", .remark "to do"]⟩]⟩]⟩]⟩⟩

/-- The reports differ where a remark has children, but not beside one without, and a rule that
is read has none. -/
theorem only_singles_reported_below_remark :
    singleBelowRemark.withoutSingles.rail = ⟨" | [r]  | 'a' ", []⟩ ∧
      singleBelowRemark.rail.diagnostics = [.unexpectedKind .choiceSingle] ∧
      singleBelowRemark.diagram.diagnostics =
        [.unexpectedKind .choiceSingle, .unexpectedKind .choiceSingle] ∧
      singleBesideRemark.rail.diagnostics = [.unexpectedKind .choiceSingle] ∧
      singleBesideRemark.rail.diagnostics = singleBesideRemark.diagram.diagnostics ∧
      Rule.parse "r : (a [to do])+ |" = .ok (some optionalRemark) ∧
      optionalRemark.rail.isClean ∧ optionalRemark.diagram.isClean := by
  have hparse : Rule.parse "r : (a [to do])+ |" = .ok (some optionalRemark) := by
    decide +kernel
  have hremarks : ∀ below, singleBesideRemark.Subtree below → below.kind = .remark →
      below.children = [] := by
    intro below hbelow hkind
    cases hbelow with
    | root => cases hkind
    | child hmem hbelow =>
      simp only [singleBesideRemark, List.mem_cons, List.not_mem_nil, or_false] at hmem
      rcases hmem with rfl | rfl
      · cases hbelow with
        | root => cases hkind
        | child hmem => cases hmem
      · cases hbelow with
        | root => rfl
        | child hmem => cases hmem
  obtain ⟨hnodes, hrules⟩ := only_singles_reported
  obtain ⟨htext, -, hrail, hdiagram, -⟩ := hnodes singleBelowRemark
  obtain ⟨-, -, hbeside, -, hsame⟩ := hnodes singleBesideRemark
  exact ⟨htext.trans (by decide +kernel), hrail.trans (by decide +kernel),
    hdiagram.trans (by decide +kernel), hbeside.trans (by decide +kernel), hsame hremarks, hparse,
    hrules _ _ hparse⟩

end Node

end Railroad
