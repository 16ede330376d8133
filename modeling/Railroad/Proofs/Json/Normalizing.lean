import Railroad.Proofs.Json.RoundTrip

/-!
# Writing what was read

One tree has many texts: records are objects or lists, members stand in any order among
others that mean nothing, kinds are names or objects, and strings can be escaped or not.
Whichever text a tree is read from, the tree is not higher than the levels of the reader
allow, as each of its nodes takes a level there and each list of children another one.
The text that is written for it takes just as many, so that it can be read again.

Main definitions:

- Definition {lit}`Json.Gives`: what holds of everything that a reader gives.

Main results:

- Theorem {lit}`Json.gives_node`: how high a tree can be that is read.
- Theorem {lit}`Json.reads_again`: what was read from any text is read again from the text
  that is written for it.
-/

namespace Railroad

namespace Json

variable {α β : Type} {P : α → Prop} {Q : β → Prop}

/-! ## What readers give -/

/-- What succeeds in front of a text has found a character there. -/
theorem exists_of_next? {s : List Char} {f : Char → Rest s → Except Error α} {a : α}
    (h : (match next? s with
      | none => Except.error Error.cutOff
      | some (c, r) => f c r) = .ok a) :
    ∃ c r, f c r = .ok a := by
  cases hnext : next? s with
  | none =>
    rw [hnext] at h
    cases h
  | some p =>
    rw [hnext] at h
    exact ⟨p.1, p.2, h⟩

/-- Everything that a reader gives has some property. -/
def Gives (item : Reader α) (P : α → Prop) : Prop :=
  ∀ s a r, item s = .ok (a, r) → P a

/-- What a reader gives has each weaker property. -/
theorem Gives.mono {item : Reader α} {P' : α → Prop} (h : Gives item P) (himp : ∀ a, P a → P' a) :
    Gives item P' :=
  fun s a r hread => himp a (h s a r hread)

/-- Nothing is asked of what a reader gives. -/
theorem gives_true (item : Reader α) : Gives item fun _ => True :=
  fun _ _ _ _ => trivial

/-! ## Lists -/

/-- What is given as an element of a list. -/
theorem of_element_eq_ok {item : Reader α} (h : Gives item P) {first : Bool} {s : List Char}
    {a : α} {r : Rest s} (hread : element item first s = .ok (.item a r)) : P a := by
  obtain ⟨c, r₁, hread⟩ := exists_of_next? hread
  by_cases hclosing : c = ']'
  · rw [if_pos hclosing] at hread
    cases hread
  · rw [if_neg hclosing] at hread
    obtain ⟨start, -, hread⟩ := bind_eq_ok_iff.mp hread
    obtain ⟨⟨b, r₂⟩, hitem, hread⟩ := bind_eq_ok_iff.mp hread
    cases hread
    exact h _ _ _ hitem

/-- If a reader gives elements with a property, all elements of a list have it. -/
theorem gives_elements {item : Reader α} (h : Gives item P) (first : Bool) :
    Gives (elements item first) fun as => ∀ a ∈ as, P a := by
  intro s as r hread
  induction hlength : s.length using Nat.strong_induction_on generalizing s as first with
  | _ n ih =>
    subst hlength
    rw [elements] at hread
    obtain ⟨part, hpart, hread⟩ := bind_eq_ok_iff.mp hread
    cases part with
    | closing r₁ =>
      cases hread
      simp
    | item a r₁ =>
      obtain ⟨⟨rest, r₂⟩, hrest, hread⟩ := bind_eq_ok_iff.mp hread
      cases hread
      rw [List.forall_mem_cons]
      exact ⟨of_element_eq_ok h hpart, ih r₁.1.length r₁.2 _ _ _ r₂ hrest rfl⟩

/-- So have those of a list with its brackets. -/
theorem gives_listOf {item : Reader α} (h : Gives item P) :
    Gives (listOf (some item)) fun as => ∀ a ∈ as, P a := by
  intro s as r hread
  obtain ⟨c, r₁, hread⟩ := exists_of_next? hread
  by_cases hopening : c = '['
  · rw [if_pos hopening] at hread
    obtain ⟨⟨found, r₂⟩, hfound, hread⟩ := bind_eq_ok_iff.mp hread
    cases hread
    exact gives_elements h true _ _ _ hfound
  · rw [if_neg hopening] at hread
    cases hread

/-- No list is read where no level is left. -/
theorem gives_listOf_none : Gives (listOf (none : Option (Reader α))) fun _ => False := by
  intro s as r hread
  obtain ⟨c, r₁, hread⟩ := exists_of_next? hread
  split at hread <;> cases hread

/-! ## Objects -/

/-- A member that may come only once is read like any other. -/
theorem gives_once {name : String} {old : Option α} {item : Reader α} (h : Gives item P) :
    Gives (once name old item) P := by
  intro s a r hread
  unfold once at hread
  by_cases hold : old.isSome
  · rw [if_pos hold] at hread
    cases hread
  · rw [if_neg hold] at hread
    obtain ⟨r₁, -, hread⟩ := bind_eq_ok_iff.mp hread
    obtain ⟨⟨b, r₂⟩, hitem, hread⟩ := bind_eq_ok_iff.mp hread
    cases hread
    exact h _ _ _ hitem

/-- A member that is passed over changes nothing about what was gathered. -/
theorem gives_ignored {gathered : α} (h : P gathered) : Gives (ignored gathered) P := by
  intro s a r hread
  obtain ⟨r₁, -, hread⟩ := bind_eq_ok_iff.mp hread
  obtain ⟨t, -, hread⟩ := bind_eq_ok_iff.mp hread
  cases hread
  exact h

/-- What each member keeps holds of all that is gathered from members. -/
theorem gives_members {field : String → α → Reader α}
    (hfield : ∀ name gathered, P gathered → Gives (field name gathered) P) (first : Bool)
    {start : α} (hstart : P start) : Gives (members field first start) P := by
  intro s a r hread
  induction hlength : s.length using Nat.strong_induction_on generalizing s start first r with
  | _ n ih =>
    subst hlength
    rw [members] at hread
    obtain ⟨c, r₁, hread⟩ := exists_of_next? hread
    by_cases hclosing : c = '\x7d'
    · rw [if_pos hclosing] at hread
      cases hread
      exact hstart
    · rw [if_neg hclosing] at hread
      obtain ⟨start', -, hread⟩ := bind_eq_ok_iff.mp hread
      obtain ⟨⟨name, r₂⟩, -, hread⟩ := bind_eq_ok_iff.mp hread
      obtain ⟨⟨gathered, r₃⟩, hgathered, hread⟩ := bind_eq_ok_iff.mp hread
      obtain ⟨⟨result, r₄⟩, hrest, hread⟩ := bind_eq_ok_iff.mp hread
      cases hread
      have hkept : P gathered := hfield _ _ hstart _ _ _ hgathered
      exact ih _ ((start'.after r₂.tail).after r₃.tail).2 _ hkept _ r₄ hrest rfl

/-- If each member keeps a property of what is gathered, the value that is made of it at the
end has the property that follows from it. -/
theorem gives_ofMembers {field : String → α → Reader α} {start : α} {make : α → Except Error β}
    (hfield : ∀ name gathered, P gathered → Gives (field name gathered) P) (hstart : P start)
    (hmake : ∀ gathered b, P gathered → make gathered = .ok b → Q b) :
    Gives (ofMembers field start make) Q := by
  intro s b r hread
  obtain ⟨⟨gathered, r₁⟩, hgathered, hread⟩ := bind_eq_ok_iff.mp hread
  obtain ⟨made, hmade, hread⟩ := bind_eq_ok_iff.mp hread
  cases hread
  exact hmake _ _ (gives_members hfield true hstart _ _ _ hgathered) hmade

/-! ## Records -/

/-- A record has a property if it has it in both of its forms. -/
theorem gives_record {wanted : Record} {ofObject ofList : Reader α} (hobject : Gives ofObject P)
    (hlist : Gives ofList P) : Gives (record wanted (some (ofObject, ofList))) P := by
  intro s a r hread
  obtain ⟨c, r₁, hread⟩ := exists_of_next? hread
  by_cases hopening : c = '\x7b' ∨ c = '['
  · rw [if_pos hopening] at hread
    obtain ⟨⟨b, r₂⟩, hitem, hread⟩ := bind_eq_ok_iff.mp hread
    cases hread
    by_cases hsquare : c = '['
    · rw [if_pos hsquare] at hitem
      exact hlist _ _ _ hitem
    · rw [if_neg hsquare] at hitem
      exact hobject _ _ _ hitem
  · rw [if_neg hopening] at hread
    cases hread

/-- No record is read where no level is left. -/
theorem gives_record_none {wanted : Record} :
    Gives (record wanted (none : Option (Reader α × Reader α))) fun _ => False := by
  intro s a r hread
  obtain ⟨c, r₁, hread⟩ := exists_of_next? hread
  split at hread <;> cases hread

/-- A record in the form of a list: a field that has to be there, and what comes behind it. -/
theorem gives_listField {wanted : Record} {position : Nat} {item : Reader α}
    {next : α → Reader β} (hitem : Gives item P) (hnext : ∀ a, P a → Gives (next a) Q) :
    Gives (listField wanted position item next) Q := by
  intro s b r hread
  obtain ⟨part, hpart, hread⟩ := bind_eq_ok_iff.mp hread
  cases part with
  | closing r₁ => cases hread
  | item a r₁ =>
    obtain ⟨⟨found, r₂⟩, hfound, hread⟩ := bind_eq_ok_iff.mp hread
    cases hread
    exact hnext a (of_element_eq_ok hitem hpart) _ _ _ hfound

/-- A field with a default, which stands in for one that is not there. -/
theorem gives_listFieldOr {item : Reader α} {default : β} {next : α → Reader β}
    (hitem : Gives item P) (hdefault : Q default) (hnext : ∀ a, P a → Gives (next a) Q) :
    Gives (listFieldOr item default next) Q := by
  intro s b r hread
  obtain ⟨part, hpart, hread⟩ := bind_eq_ok_iff.mp hread
  cases part with
  | closing r₁ =>
    cases hread
    exact hdefault
  | item a r₁ =>
    obtain ⟨⟨found, r₂⟩, hfound, hread⟩ := bind_eq_ok_iff.mp hread
    cases hread
    exact hnext a (of_element_eq_ok hitem hpart) _ _ _ hfound

/-- Behind the last field there is nothing to read. -/
theorem gives_listEnd {a : α} (h : P a) : Gives (listEnd a) P := by
  intro s b r hread
  obtain ⟨r₁, -, hread⟩ := bind_eq_ok_iff.mp hread
  cases hread
  exact h

/-! ## Trees and rules -/

/-- If children were read, they have some property. -/
def NodeFields.ChildrenHave (P : List Node → Prop) (fields : NodeFields) : Prop :=
  ∀ children, fields.children = some children → P children

/-- Members of a node keep a property of its children. -/
theorem gives_nodeField {levels : Nat} {children : Reader (List Node)} {P : List Node → Prop}
    (h : Gives children P) (name : String) {gathered : NodeFields}
    (hgathered : gathered.ChildrenHave P) :
    Gives (nodeField levels children name gathered) (NodeFields.ChildrenHave P) := by
  intro s fields r hread
  unfold nodeField at hread
  -- Only one of the three fields matters; other members change nothing.
  split at hread
  · obtain ⟨⟨kind, r₁⟩, -, hread⟩ := bind_eq_ok_iff.mp hread
    cases hread
    exact hgathered
  · obtain ⟨⟨value, r₁⟩, -, hread⟩ := bind_eq_ok_iff.mp hread
    cases hread
    exact hgathered
  · obtain ⟨⟨nodes, r₁⟩, hnodes, hread⟩ := bind_eq_ok_iff.mp hread
    cases hread
    rintro _ ⟨⟩
    exact gives_once h _ _ _ hnodes
  · exact gives_ignored hgathered _ _ _ hread

/-- The children of a node are those that were read, if any were. -/
theorem children_of_make_eq_ok {fields : NodeFields} {node : Node} (h : fields.make = .ok node) :
    node.children = fields.children.getD [] := by
  obtain ⟨kind, -, h⟩ := bind_eq_ok_iff.mp h
  cases h
  rfl

/-- The height of a tree whose children are not too high. -/
theorem height_le_of_children {node : Node} {levels : Nat}
    (h : 2 * Node.heightAll node.children ≤ levels) : 2 * node.height ≤ levels + 2 := by
  rw [Node.height_eq]
  omega

mutual

/-- Each node of a tree takes a level, and each list of children another one. -/
theorem gives_node : (levels : Nat) →
    Gives (node levels) fun tree => 2 * tree.height ≤ levels + 1
  | 0 => gives_record_none.mono fun _ => False.elim
  | levels + 1 => by
    have hnodes := gives_nodes levels
    have hnil : 2 * Node.heightAll [] ≤ levels := Nat.zero_le _
    refine gives_record (gives_ofMembers (fun name gathered => gives_nodeField hnodes name) ?_ ?_)
      ?_
    · rintro _ ⟨⟩
    · intro gathered tree hgathered hmake
      apply height_le_of_children
      rw [children_of_make_eq_ok hmake]
      cases hchildren : gathered.children with
      | none => exact hnil
      | some children => exact hgathered children hchildren
    · refine gives_listField (gives_true _) fun kind _ => ?_
      refine gives_listFieldOr (gives_true _) (height_le_of_children hnil) fun value _ => ?_
      refine gives_listFieldOr hnodes (height_le_of_children hnil) fun children hchildren => ?_
      exact gives_listEnd (height_le_of_children hchildren)

/-- The trees of a list, one level deeper for the list itself. -/
theorem gives_nodes : (levels : Nat) →
    Gives (nodes levels) fun trees => 2 * Node.heightAll trees ≤ levels
  | 0 => gives_listOf_none.mono fun _ => False.elim
  | levels + 1 => by
    refine (gives_listOf (gives_node levels)).mono fun trees htrees => ?_
    have hall : Node.heightAll trees ≤ (levels + 1) / 2 := by
      rw [Node.heightAll_le_iff]
      intro tree hmem
      have htree := htrees tree hmem
      omega
    omega

end

/-- If a root was read, it has some property. -/
def RuleFields.RootHas (P : Node → Prop) (fields : RuleFields) : Prop :=
  ∀ root, fields.root = some root → P root

/-- Members of a rule keep a property of its tree. -/
theorem gives_ruleField {levels : Nat} {P : Node → Prop} (h : Gives (node levels) P)
    (name : String) {gathered : RuleFields} (hgathered : gathered.RootHas P) :
    Gives (ruleField levels name gathered) (RuleFields.RootHas P) := by
  intro s fields r hread
  unfold ruleField at hread
  split at hread
  · obtain ⟨⟨name, r₁⟩, -, hread⟩ := bind_eq_ok_iff.mp hread
    cases hread
    exact hgathered
  · obtain ⟨⟨root, r₁⟩, hroot, hread⟩ := bind_eq_ok_iff.mp hread
    cases hread
    rintro _ ⟨⟩
    exact gives_once h _ _ _ hroot
  · exact gives_ignored hgathered _ _ _ hread

/-- A member that has to be there is the one that was read. -/
theorem eq_some_of_required_eq_ok {name : String} {value : Option α} {a : α}
    (h : required name value = .ok a) : value = some a := by
  cases value with
  | none => cases h
  | some b =>
    cases h
    rfl

/-- The tree of a rule is the one that was read. -/
theorem root_of_make_eq_ok {fields : RuleFields} {rule : Rule} (h : fields.make = .ok rule) :
    fields.root = some rule.root := by
  obtain ⟨name, -, h⟩ := bind_eq_ok_iff.mp h
  obtain ⟨root, hroot, h⟩ := bind_eq_ok_iff.mp h
  cases h
  exact eq_some_of_required_eq_ok hroot

/-- The tree of a rule is no higher than the levels allow for. -/
theorem gives_rule (levels : Nat) :
    Gives (rule levels) fun rule => 2 * rule.root.height ≤ levels + 1 := by
  have hnode := gives_node levels
  refine gives_record (gives_ofMembers (fun name gathered => gives_ruleField hnode name) ?_ ?_) ?_
  · rintro _ ⟨⟩
  · intro gathered rule hgathered hmake
    exact hgathered rule.root (root_of_make_eq_ok hmake)
  · refine gives_listField (gives_true _) fun name _ => ?_
    exact gives_listField hnode fun root hroot => gives_listEnd hroot

/-- What a whole text is read as has the property of what the reader gives. -/
theorem of_whole_eq_ok {item : Reader α} (h : Gives item P) {text : String} {a : α}
    (hread : whole item text = .ok a) : P a := by
  obtain ⟨⟨b, r⟩, hitem, hread⟩ := bind_eq_ok_iff.mp hread
  cases hnext : next? r.1 with
  | none =>
    simp only [hnext] at hread
    cases hread
    exact h _ _ _ hitem
  | some p =>
    simp only [hnext] at hread
    cases hread

/-- A tree or a rule that was read from any text is read again from both of the texts that
are written for it, however the first one was spelled and however deep it nests.  So
reading what was written and writing it again gives the same text. -/
theorem reads_again :
    (∀ text node, Node.ofJson text = .ok node → ∀ layout,
      Node.ofJson (node.json layout) = .ok node ∧
      (Node.ofJson (node.json layout)).map (Node.json layout) = .ok (node.json layout)) ∧
    ∀ text rule, Rule.ofJson text = .ok rule → ∀ layout,
      Rule.ofJson (rule.json layout) = .ok rule ∧
      (Rule.ofJson (rule.json layout)).map (Rule.json layout) = .ok (rule.json layout) := by
  constructor
  · intro text node hread layout
    have hheight : 2 * node.height ≤ maxLevels + 1 := of_whole_eq_ok (gives_node _) hread
    have hagain : Node.ofJson (node.json layout) = .ok node := by
      rw [Node.ofJson_json, if_pos]
      rw [maxLevels] at hheight
      omega
    exact ⟨hagain, by rw [hagain]; rfl⟩
  · intro text rule hread layout
    have hheight : 2 * rule.root.height ≤ maxLevels - 1 + 1 :=
      of_whole_eq_ok (gives_rule _) hread
    have hagain : Rule.ofJson (rule.json layout) = .ok rule := by
      rw [Rule.ofJson_json, if_pos]
      rw [maxLevels] at hheight
      omega
    exact ⟨hagain, by rw [hagain]; rfl⟩

/-- Lists for records, a kind as an object, a member that means nothing, and an escape. -/
theorem reads_again_list :
    Rule.ofJson (" [\"r\", \x7b\"x\": [[1e5], \x7b\x7d], \"children\": [[\"group\"], " ++
        "[\x7b\"terminal\": null\x7d, \"\\u0027a'\"]], \"value\": \"\", \"kind\": \"sequence\"\x7d]") =
      .ok ⟨"r", ⟨.sequence, "", [⟨.group, "", []⟩, ⟨.terminal, "'a'", []⟩]⟩⟩ ∧
    Rule.ofJson (Rule.json .pretty
        ⟨"r", ⟨.sequence, "", [⟨.group, "", []⟩, ⟨.terminal, "'a'", []⟩]⟩⟩) =
      .ok ⟨"r", ⟨.sequence, "", [⟨.group, "", []⟩, ⟨.terminal, "'a'", []⟩]⟩⟩ := by
  refine ⟨?read, (reads_again.2 _ _ ?read .pretty).1⟩
  decide +kernel

end Json

end Railroad
