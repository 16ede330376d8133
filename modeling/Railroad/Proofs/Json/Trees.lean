import Railroad.Proofs.Height
import Railroad.Proofs.Json.Written

/-!
# Written trees, rules and spans are read back

A tree is written with two lists or objects for each level of its height, but for the
last one.  It is read back if that many may stand inside of each other, and else it is
malformed.

Main results:

- Theorem {lit}`Json.yields_node`: trees.
- Theorems {lit}`Json.yields_rule` and {lit}`Json.yields_span`: rules and spans.
-/

namespace Railroad.Json

variable {α σ : Type} {layout : Layout}

/-! ## Members that are fields -/

/-- A written member that fills one field of what is gathered.  It must not stand there
twice. -/
def Member.ofField (name : String) (text : List Char) (result : Except Error α)
    (get : σ → Option α) (set : σ → α → σ) : Member σ :=
  ⟨name, text, fun gathered =>
    if (get gathered).isSome then .error (.data (.duplicateField name))
    else result.map (set gathered)⟩

/-- A member that fills a field is read as its value is read. -/
theorem yields_ofField {item : Reader α} {text : List Char} {result : Except Error α}
    {name : String} {gathered : σ} {get : σ → Option α} {set : σ → α → σ} {field : Reader σ}
    (h : Yields item text result)
    (hfield : field = fun s =>
      once name (get gathered) item s >>= fun p => .ok (set gathered p.1, p.2)) :
    Yields field (layout.colon ++ text)
      ((Member.ofField name text result get set).result gathered) := by
  intro blanks rest hblanks hrest
  have hvalue := yields_valueOf layout h blanks rest hblanks hrest
  have houtcome (s : List Char) : outcome field s =
      (outcome (once name (get gathered) item) s >>= fun p => .ok (set gathered p.1, p.2)) := by
    rw [outcome, hfield]
    exact map_bind_eq fun _ => rfl
  rw [houtcome, once]
  dsimp only [Member.ofField]
  by_cases hold : (get gathered).isSome
  · rw [if_pos hold, if_pos hold]
    rfl
  · rw [if_neg hold, if_neg hold, hvalue]
    cases result <;> rfl

/-! ## Trees -/

/-- The members of a written tree, whose children are read with the outcome `children`. -/
def nodeMembers (layout : Layout) (level : Nat) (node : Node)
    (children : Except Error (List Node)) : List (Member NodeFields) :=
  .ofField "kind" (quote node.kind.name) (.ok node.kind) NodeFields.kind
      (fun gathered kind => { gathered with kind := some kind }) ::
    ((if node.value = "" then [] else
      [.ofField "value" (quote node.value) (.ok node.value) NodeFields.value
        fun gathered value => { gathered with value := some value }]) ++
      (if node.children = [] then [] else
        [.ofField "children"
          (list layout (level + 1) (node.children.map (Node.encode layout (level + 2))))
          children NodeFields.children
          fun gathered children => { gathered with children := some children }]))

theorem encode_eq (level : Nat) (node : Node) (children : Except Error (List Node)) :
    node.encode layout level =
      object layout level ((nodeMembers layout level node children).map (Member.written layout)) := by
  rcases node with ⟨kind, value, nodes⟩
  cases nodes with
  | nil =>
    by_cases hvalue : value = "" <;>
      simp [Node.encode, nodeMembers, Member.ofField, Member.written, hvalue]
  | cons node nodes =>
    by_cases hvalue : value = "" <;>
      simp [Node.encode, Node.encodeAll_eq_map, nodeMembers, Member.ofField, Member.written, hvalue]

/-- What the members of a tree are put together to. -/
theorem gather_nodeMembers (level : Nat) (node : Node) {children : Except Error (List Node)}
    (h : node.children = [] → children = .ok []) :
    (Member.gather (nodeMembers layout level node children) ⟨none, none, none⟩ >>=
      NodeFields.make) = children.map fun children => { node with children := children } := by
  rcases node with ⟨kind, value, nodes⟩
  by_cases hvalue : value = "" <;> by_cases hnodes : nodes = []
  · subst hvalue hnodes
    rw [h rfl]
    rfl
  · simp [nodeMembers, hvalue, hnodes, Member.gather]
    cases children <;> rfl
  · rw [h hnodes]
    simp [nodeMembers, hvalue, hnodes, Member.gather]
    rfl
  · simp [nodeMembers, hvalue, hnodes, Member.gather]
    cases children <;> rfl

/-- The members of a tree are read as its kind, its value and its children. -/
theorem yields_nodeMembers (levels : Nat) {level : Nat} {node : Node}
    {reader : Reader (List Node)} {children : Except Error (List Node)}
    (h : node.children ≠ [] →
      Yields reader (list layout (level + 1) (node.children.map (Node.encode layout (level + 2))))
        children) :
    ∀ m ∈ nodeMembers layout level node children, ∀ gathered,
      Yields (nodeField levels reader m.name gathered) (layout.colon ++ m.text)
        (m.result gathered) := by
  intro m hm gathered
  rw [nodeMembers, List.mem_cons, List.mem_append] at hm
  rcases hm with rfl | hm | hm
  · exact yields_ofField (yields_kind levels node.kind) rfl
  · by_cases hvalue : node.value = ""
    · simp [hvalue] at hm
    · rw [if_neg hvalue, List.mem_singleton] at hm
      subst hm
      exact yields_ofField (yields_string node.value) rfl
  · by_cases hchildren : node.children = []
    · simp [hchildren] at hm
    · rw [if_neg hchildren, List.mem_singleton] at hm
      subst hm
      exact yields_ofField (h hchildren) rfl

/-- A written tree begins with a brace. -/
theorem opensValue_encode (level : Nat) (node : Node) : OpensValue (node.encode layout level) := by
  rw [encode_eq level node (.ok [])]
  exact ⟨_, _, rfl, rfl, by decide⟩

/-- Written trees are read back if enough levels are left for the highest one. -/
theorem yields_nodes {trees : List Node} {levels level : Nat} (hne : trees ≠ [])
    (h : ∀ tree ∈ trees, ∀ levels, Yields (node levels) (tree.encode layout (level + 1))
      (if 2 * tree.height ≤ levels + 1 then .ok tree else .error .malformed)) :
    Yields (nodes levels) (list layout level (trees.map (Node.encode layout (level + 1))))
      (if 2 * Node.heightAll trees ≤ levels then .ok trees else .error .malformed) := by
  cases levels with
  | zero =>
    obtain ⟨tree, trees, rfl⟩ := List.exists_cons_of_ne_nil hne
    have hheight := tree.height_pos
    have hall : ¬ 2 * Node.heightAll (tree :: trees) ≤ 0 := by
      rw [Node.heightAll]
      omega
    rw [if_neg hall, nodes]
    intro blanks rest hblanks hrest
    rw [list, List.map_cons, enclose_cons_append]
    exact outcome_listOf_none (dropWhile_blanks_append hblanks rfl _)
  | succ levels =>
    have hlist := yields_list layout level (fun tree htree => h tree htree levels)
      fun tree _ => opensValue_encode (level + 1) tree
    have hall : (∀ tree ∈ trees, 2 * tree.height ≤ levels + 1) ↔
        2 * Node.heightAll trees ≤ levels + 1 := by
      have hle := Node.heightAll_le_iff trees ((levels + 1) / 2)
      simp only [Nat.le_div_iff_mul_le (Nat.zero_lt_two), Nat.mul_comm _ 2] at hle
      exact hle.symm
    rw [mapM_eq_ite] at hlist
    simpa only [hall, nodes] using hlist

/-- A written tree is read back if enough levels are left for it, and else malformed. -/
theorem yields_node (tree : Node) (levels level : Nat) :
    Yields (node levels) (tree.encode layout level)
      (if 2 * tree.height ≤ levels + 1 then .ok tree else .error .malformed) := by
  induction tree using Node.childrenInduction generalizing levels level with
  | node tree ih =>
    -- The object takes one level and the list of its children another one, so that what is
    -- left for the children is less by two, as is twice their height.
    have hheight := tree.height_eq
    cases levels with
    | zero =>
      rw [if_neg (by omega), encode_eq level tree (.ok []), node]
      exact yields_object_none (by simp [nodeMembers]) level
    | succ levels =>
      let children : Except Error (List Node) :=
        if 2 * Node.heightAll tree.children ≤ levels then .ok tree.children
        else .error .malformed
      have hchildren (hne : tree.children ≠ []) : Yields (nodes levels)
          (list layout (level + 1) (tree.children.map (Node.encode layout (level + 2))))
          children :=
        yields_nodes hne fun child hmem levels => ih child hmem levels (level + 2)
      have hleaf (hnil : tree.children = []) : children = .ok [] := by
        simp [children, hnil, Node.heightAll]
      have hmembers := yields_nodeMembers levels hchildren
      have hobject := yields_object .node ⟨none, none, none⟩ NodeFields.make
        (nodeOfList levels (nodes levels)) level (by simp [nodeMembers]) hmembers
      have hresult : children.map (fun children => { tree with children := children }) =
          if 2 * tree.height ≤ levels + 2 then .ok tree else .error .malformed := by
        by_cases hle : 2 * Node.heightAll tree.children ≤ levels
        · rw [if_pos (by omega)]
          simp only [children, if_pos hle]
          cases tree
          rfl
        · rw [if_neg (by omega)]
          simp only [children, if_neg hle]
          rfl
      rw [gather_nodeMembers level tree hleaf, ← encode_eq, hresult] at hobject
      exact hobject

/-! ## Rules and spans -/

/-- The members of a written rule, whose tree is read with the outcome `root`. -/
def ruleMembers (layout : Layout) (rule : Rule) (root : Except Error Node) :
    List (Member RuleFields) :=
  [.ofField "name" (quote rule.name) (.ok rule.name) RuleFields.name
      fun gathered name => { gathered with name := some name },
    .ofField "root" (rule.root.encode layout 1) root RuleFields.root
      fun gathered root => { gathered with root := some root }]

/-- A written rule is read back if enough levels are left for its tree. -/
theorem yields_rule (r : Rule) (levels : Nat) :
    Yields (rule levels) (r.encode layout)
      (if 2 * r.root.height ≤ levels + 1 then .ok r else .error .malformed) := by
  let root : Except Error Node :=
    if 2 * r.root.height ≤ levels + 1 then .ok r.root else .error .malformed
  have hmembers : ∀ m ∈ ruleMembers layout r root, ∀ gathered,
      Yields (ruleField levels m.name gathered) (layout.colon ++ m.text) (m.result gathered) := by
    intro m hm gathered
    rw [ruleMembers, List.mem_cons, List.mem_singleton] at hm
    rcases hm with rfl | rfl
    · exact yields_ofField (yields_string r.name) rfl
    · exact yields_ofField (yields_node r.root levels 1) rfl
  have hobject := yields_object .rule ⟨none, none⟩ RuleFields.make
    (listField .rule 0 string fun name =>
      listField .rule 1 (node levels) fun root => listEnd ⟨name, root⟩) 0
    (by simp [ruleMembers]) hmembers
  have hresult : (Member.gather (ruleMembers layout r root) ⟨none, none⟩ >>= RuleFields.make) =
      if 2 * r.root.height ≤ levels + 1 then .ok r else .error .malformed := by
    by_cases hle : 2 * r.root.height ≤ levels + 1
    · simp only [root, if_pos hle]
      rfl
    · simp only [root, if_neg hle]
      rfl
  rw [hresult] at hobject
  exact hobject

/-- The members of a written span. -/
def spanMembers (span : Span) : List (Member SpanFields) :=
  [.ofField "start" (number span.start) (.ok span.start) SpanFields.start
      fun gathered start => { gathered with start := some start },
    .ofField "end" (number span.stop) (.ok span.stop) SpanFields.stop
      fun gathered stop => { gathered with stop := some stop }]

/-- A written span is read back if its ends fit into 64 bits. -/
theorem yields_span {s : Span} (hstart : s.start < 2 ^ 64) (hstop : s.stop < 2 ^ 64) :
    Yields span (object layout 0
      [member layout "start" (number s.start), member layout "end" (number s.stop)]) (.ok s) := by
  have hmembers : ∀ m ∈ spanMembers s, ∀ gathered,
      Yields (spanField m.name gathered) (layout.colon ++ m.text) (m.result gathered) := by
    intro m hm gathered
    rw [spanMembers, List.mem_cons, List.mem_singleton] at hm
    rcases hm with rfl | rfl
    · exact yields_ofField (yields_natural hstart) rfl
    · exact yields_ofField (yields_natural hstop) rfl
  exact yields_object .span ⟨none, none⟩ SpanFields.make
    (listField .span 0 natural fun start =>
      listField .span 1 natural fun stop => listEnd ⟨start, stop⟩) 0
    (by simp [spanMembers]) hmembers

/-! ## Whole texts -/

/-- A written value that makes up a whole text. -/
theorem whole_eq {item : Reader α} {text : String} {result : Except Error α}
    (h : Yields item text.toList result) : whole item text = result := by
  have hitem := h [] [] (by simp) (by simp [EndsNumber])
  rw [List.nil_append, List.append_nil] at hitem
  rw [whole]
  cases result with
  | error e =>
    cases hread : item text.toList with
    | error e' =>
      rw [outcome, hread] at hitem
      cases hitem
      rfl
    | ok p =>
      rw [outcome, hread] at hitem
      cases hitem
  | ok a =>
    rcases exists_of_outcome_eq_ok hitem with ⟨⟨r, hlength⟩, hread, rfl : r = []⟩
    rw [hread]
    rfl

end Railroad.Json
