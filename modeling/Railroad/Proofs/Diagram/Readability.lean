import Railroad.Proofs.Diagram.Calls
import Railroad.Proofs.Leaves
import Railroad.Proofs.Rail.RoundTrip
import Railroad.Proofs.Runs

/-!
# Diagrams are read without ambiguity

The text of a diagram determines the tree that it draws, but for groups.  The first
characters of a call tell its kind, and the calls of an argument end where a comma, a
parenthesis or a line feed follows, so that the text before determines the text behind.
A single quote in a remark would spoil this, as it ends the quoted text.

Main definitions:

- Definition {lit}`Node.Legible`: the trees without groups whose calls can be told apart.
- Definition {lit}`Node.Readable`: a tree whose calls are not those of another tree.
- Definition {lit}`Node.Alike`: legible trees that are made in the same way.

Main results:

- Theorem {lit}`Node.Legible.readable`: a text that begins with the calls of a legible
  tree does not begin with those of another.
- Theorem {lit}`Rule.diagram_text_eq_iff`: rules of sources have the same diagram exactly
  if their trees agree but for groups.
-/

namespace Railroad

namespace Node

/-- A tree without groups, whose calls can be told apart from those of other trees. -/
inductive Legible : Node → Prop where
  | nothing : Legible nothing
  | name {value : String} (h : IsIdentifier value.toList) : Legible ⟨.nonTerminal, value, []⟩
  | terminal {value : String} (h : IsQuoted value.toList) : Legible ⟨.terminal, value, []⟩
  | remark {value : String} (h : '\'' ∉ value.toList) : Legible ⟨.remark, value, []⟩
  | call {kind : Kind} {node : Node} {nodes : List Node} (hkind : kind.isCall)
      (h : ∀ child ∈ node :: nodes, Legible child) : Legible ⟨kind, "", node :: nodes⟩

/-! ## Trees of rules -/

/-- A call is legible without its groups if its arguments are. -/
theorem legible_ungrouped_call {kind : Kind} {nodes : List Node} (hkind : kind.isCall)
    (hne : nodes ≠ []) (h : ∀ node ∈ nodes, node.ungrouped.Legible) :
    (ungrouped ⟨kind, "", nodes⟩).Legible := by
  obtain ⟨node, nodes, rfl⟩ := List.exists_cons_of_ne_nil hne
  have hcall : (⟨kind, "", node.ungrouped :: nodes.map ungrouped⟩ : Node).Legible :=
    .call hkind (by simpa using h)
  rw [ungrouped, ungroupedAll_eq_map, List.map_cons]
  cases kind with
  | sequence | choice | choiceRight | choiceLeft | loop => exact hcall
  | _ => cases hkind

/-- A tree in normal form is legible without its groups, if no remark has a quote. -/
theorem Normal.legible_ungrouped {layer : Layer} {node : Node} (h : Normal layer node)
    (hquote : ∀ leaf ∈ node.leaves, leaf.1 = .remark → '\'' ∉ leaf.2.toList) :
    node.ungrouped.Legible := by
  induction h with
  | name hname => exact .name hname
  | terminal hterminal => exact .terminal hterminal
  | remark hbracket htrim => exact .remark (hquote _ List.mem_cons_self rfl)
  | emptyGroup => exact .nothing
  | group hinner ih => exact ih (forall_leaves_child List.mem_cons_self hquote)
  | single hnode ih | only hnode ih | notRight hnode ih | notLeft hnode ih => exact ih hquote
  | sequence hlength hnodes ih | choice hlength hnodes ih =>
    refine legible_ungrouped_call rfl (List.ne_nil_of_length_pos (by omega)) ?_
    exact fun node hmem => ih node hmem (forall_leaves_child hmem hquote)
  | loop hinner ih | right hinner ih | left hinner ih =>
    refine legible_ungrouped_call rfl (List.cons_ne_nil _ _) ?_
    rw [List.forall_mem_singleton]
    exact ih (forall_leaves_child List.mem_cons_self hquote)

/-! ## Telling calls apart -/

/-- What can stand behind the calls of an argument or of a whole tree. -/
def EndsCalls (text : List Char) : Prop :=
  ∃ c t, text = c :: t ∧ (c = ',' ∨ c = ')' ∨ c = '\n')

/-- Behind an argument follows a comma or a parenthesis. -/
theorem endsCalls_furtherCalls (nodes : List Node) (t : List Char) :
    EndsCalls (furtherCalls nodes ++ ')' :: t) := by
  cases nodes with
  | nil => exact ⟨')', t, rfl, by decide⟩
  | cons node nodes => exact ⟨',', _, rfl, by decide⟩

/-- The kind of the tree that a text draws first, by the characters that tell it. -/
def leadingKind (text : List Char) : Kind :=
  match text.take 2 with
  | ['S', 'e'] => .sequence
  | ['C', 'h'] => .choice
  | ['C', 'o'] => .remark
  | ['O', 'n'] => .loop
  | ['O', 'p'] => if text[10]? = some ' ' then .choiceLeft else .choiceRight
  | ['N', 'o'] => .nonTerminal
  | c :: _ => if c = '\'' ∨ c = '"' then .terminal else .group
  | [] => .group

/-- The calls of a tree do not begin with a blank. -/
theorem Legible.head?_ne_blank {node : Node} (h : node.Legible) {t : List Char}
    (ht : EndsCalls t) : (node.calls ++ t).head? ≠ some ' ' := by
  cases h with
  | nothing => rcases ht with ⟨c, t, rfl, rfl | rfl | rfl⟩ <;> simp [calls_nothing]
  | name hname => simp [calls_nonTerminal]
  | @terminal value hterminal =>
    rcases hterminal with ⟨quote, inner, rfl | rfl, hvalue, hinner⟩ <;>
      simp [calls_terminal, hvalue]
  | remark hquote => simp [calls_remark]
  | @call kind node nodes hkind h =>
    rw [calls_call hkind]
    cases kind with
    | sequence | choice | choiceRight | choiceLeft | loop => exact ne_of_beq_false rfl
    | _ => cases hkind

/-- A blank behind the parenthesis tells the two optional calls apart. -/
theorem leadingKind_optional {t : List Char} (ht : t.head? ≠ some ' ') :
    leadingKind (Kind.choiceRight.opening.toList ++ t) = .choiceRight := by
  cases t with
  | nil => rfl
  | cons c t =>
    have hblank : c ≠ ' ' := by simpa using ht
    simp [leadingKind, Kind.opening, hblank]

/-- The calls of a tree tell its kind. -/
theorem Legible.leadingKind_eq {node : Node} (h : node.Legible) {t : List Char}
    (ht : EndsCalls t) : leadingKind (node.calls ++ t) = node.kind := by
  cases h with
  | nothing => rcases ht with ⟨c, t, rfl, rfl | rfl | rfl⟩ <;> cases t <;> rfl
  | name hname =>
    rw [calls_nonTerminal]
    rfl
  | @terminal value hterminal =>
    rcases hterminal with ⟨quote, inner, rfl | rfl, hvalue, hinner⟩ <;>
      cases inner <;> simp [calls_terminal, hvalue, leadingKind]
  | remark hquote =>
    rw [calls_remark]
    rfl
  | @call kind node nodes hkind h =>
    rw [calls_call hkind]
    cases kind with
    | choiceRight =>
      have hfirst := (h node List.mem_cons_self).head?_ne_blank
        (endsCalls_furtherCalls nodes (Kind.choiceRight.gap.toList ++ t))
      simpa using leadingKind_optional hfirst
    | choiceLeft | sequence | choice | loop => rfl
    | _ => cases hkind

/-! ## Reading calls -/

/-- A tree whose calls, in front of what can stand behind them, are not also those of
another tree. -/
def Readable (node : Node) : Prop :=
  ∀ ⦃node' : Node⦄, node'.Legible → ∀ ⦃t t' : List Char⦄, EndsCalls t → EndsCalls t' →
    node.calls ++ t = node'.calls ++ t' → node = node' ∧ t = t'

/-- The further arguments of a call are readable if each of them is. -/
theorem eq_of_furtherCalls_append_eq {nodes nodes' : List Node}
    (h : ∀ node ∈ nodes, node.Readable) (h' : ∀ node ∈ nodes', node.Legible) {t t' : List Char}
    (heq : furtherCalls nodes ++ ')' :: t = furtherCalls nodes' ++ ')' :: t') :
    nodes = nodes' ∧ t = t' := by
  induction nodes generalizing nodes' with
  | nil =>
    cases nodes' with
    | nil => simpa [furtherCalls] using heq
    | cons node' nodes' => simp [furtherCalls] at heq
  | cons node nodes ih =>
    cases nodes' with
    | nil => simp [furtherCalls] at heq
    | cons node' nodes' =>
      -- Whether more arguments follow or not, the text behind the first one ends its calls.
      rw [List.forall_mem_cons] at h h'
      simp only [furtherCalls, List.flatMap_cons, List.cons_append, List.append_assoc,
        List.cons.injEq, true_and] at heq
      rcases h.1 h'.1 (endsCalls_furtherCalls nodes t) (endsCalls_furtherCalls nodes' t') heq
        with ⟨rfl, hrest⟩
      rcases ih h.2 h'.2 hrest with ⟨rfl, rfl⟩
      exact ⟨rfl, rfl⟩

theorem quote_notMem_of_isIdentifier {cs : List Char} (h : IsIdentifier cs) : '\'' ∉ cs := by
  intro hmem
  exact absurd (h.isNamePart _ hmem) (by decide)

/-- A text between two quotes, which it does not hold itself. -/
theorem eq_of_quoted_append_eq {front : List Char} {value value' : String} {t t' : List Char}
    (h : '\'' ∉ value.toList) (h' : '\'' ∉ value'.toList)
    (heq : front ++ (value.toList ++ ['\'', ')']) ++ t =
      front ++ (value'.toList ++ ['\'', ')']) ++ t') : value = value' ∧ t = t' := by
  simp only [List.append_assoc, List.append_cancel_left_eq, List.cons_append, List.nil_append]
    at heq
  rcases eq_of_append_cons_eq h h' heq with ⟨hvalue, htail⟩
  exact ⟨String.toList_inj.mp hvalue, (List.cons.inj htail).2⟩

/-- A quoted terminal, which does not hold its quote between its ends. -/
theorem eq_of_isQuoted_append_eq {s s' t t' : List Char} (h : IsQuoted s) (h' : IsQuoted s')
    (heq : s ++ t = s' ++ t') : s = s' ∧ t = t' := by
  rcases h with ⟨quote, inner, -, rfl, hinner⟩
  rcases h' with ⟨quote', inner', -, rfl, hinner'⟩
  simp only [List.cons_append, List.append_assoc, List.nil_append, List.cons.injEq] at heq
  rcases heq with ⟨rfl, heq⟩
  rcases eq_of_append_cons_eq (fun hmem => (hinner _ hmem).1 rfl)
    (fun hmem => (hinner' _ hmem).1 rfl) heq with ⟨rfl, rfl⟩
  exact ⟨rfl, rfl⟩

/-- Two legible trees that are made in the same way. -/
inductive Alike : Node → Node → Prop where
  | nothing : Alike nothing nothing
  | name {value value' : String} (h : IsIdentifier value.toList)
      (h' : IsIdentifier value'.toList) : Alike ⟨.nonTerminal, value, []⟩ ⟨.nonTerminal, value', []⟩
  | terminal {value value' : String} (h : IsQuoted value.toList) (h' : IsQuoted value'.toList) :
      Alike ⟨.terminal, value, []⟩ ⟨.terminal, value', []⟩
  | remark {value value' : String} (h : '\'' ∉ value.toList) (h' : '\'' ∉ value'.toList) :
      Alike ⟨.remark, value, []⟩ ⟨.remark, value', []⟩
  | call {kind : Kind} {node node' : Node} {nodes nodes' : List Node} (hkind : kind.isCall)
      (h : ∀ child ∈ node :: nodes, Legible child)
      (h' : ∀ child ∈ node' :: nodes', Legible child) :
      Alike ⟨kind, "", node :: nodes⟩ ⟨kind, "", node' :: nodes'⟩

/-- Legible trees of one kind are made in the same way. -/
theorem Legible.alike {node node' : Node} (h : node.Legible) (h' : node'.Legible)
    (hkind : node.kind = node'.kind) : Alike node node' := by
  cases h <;> cases h' <;> cases hkind
  case nothing.nothing => exact .nothing
  case name.name hname _ hname' => exact .name hname hname'
  case terminal.terminal hterminal _ hterminal' => exact .terminal hterminal hterminal'
  case remark.remark hquote _ hquote' => exact .remark hquote hquote'
  case call.call hcall hnodes _ _ hnodes' _ => exact .call hcall hnodes hnodes'
  -- A leaf and a call are not of one kind.
  all_goals contradiction

/-- Trees whose calls begin one text are of one kind. -/
theorem Legible.kind_eq {node node' : Node} (h : node.Legible) (h' : node'.Legible)
    {t t' : List Char} (ht : EndsCalls t) (ht' : EndsCalls t')
    (heq : node.calls ++ t = node'.calls ++ t') : node.kind = node'.kind := by
  rw [← h.leadingKind_eq ht, heq, h'.leadingKind_eq ht']

/-- Legible trees are readable. -/
theorem Legible.readable {node : Node} (h : node.Legible) : node.Readable := by
  induction node using childrenInduction with
  | node node ih =>
    intro node' h' t t' ht ht' heq
    -- The kinds agree, which leaves one case for each constructor.
    cases h.alike h' (h.kind_eq h' ht ht' heq) with
    | nothing => exact ⟨rfl, heq⟩
    | name hname hname' =>
      rw [calls_nonTerminal, calls_nonTerminal] at heq
      rcases eq_of_quoted_append_eq (quote_notMem_of_isIdentifier hname)
        (quote_notMem_of_isIdentifier hname') heq with ⟨rfl, htail⟩
      exact ⟨rfl, htail⟩
    | terminal hterminal hterminal' =>
      rw [calls_terminal, calls_terminal] at heq
      rcases eq_of_isQuoted_append_eq hterminal hterminal' heq with ⟨hvalue, htail⟩
      rw [String.toList_inj.mp hvalue]
      exact ⟨rfl, htail⟩
    | remark hquote hquote' =>
      rw [calls_remark, calls_remark] at heq
      rcases eq_of_quoted_append_eq hquote hquote' heq with ⟨rfl, htail⟩
      exact ⟨rfl, htail⟩
    | @call kind node node' nodes nodes' hcall hnodes hnodes' =>
      have hreadable : ∀ child ∈ node :: nodes, child.Readable :=
        fun child hmem => ih child hmem (hnodes child hmem)
      simp only [calls_call hcall, List.append_assoc, List.append_cancel_left_eq,
        List.cons_append] at heq
      rw [List.forall_mem_cons] at hreadable hnodes'
      rcases hreadable.1 hnodes'.1 (endsCalls_furtherCalls _ _) (endsCalls_furtherCalls _ _) heq
        with ⟨rfl, hrest⟩
      rcases eq_of_furtherCalls_append_eq hreadable.2 hnodes'.2 hrest with ⟨rfl, htail⟩
      exact ⟨rfl, List.append_cancel_left htail⟩

end Node

namespace Rule

/-- The tree of a rule is legible without its groups, if no remark has a quote. -/
theorem Normal.legible_root {rule : Rule} (h : rule.Normal)
    (hquote : ∀ leaf ∈ rule.root.leaves, leaf.1 = .remark → '\'' ∉ leaf.2.toList) :
    rule.root.ungrouped.Legible := by
  rcases h.root with hempty | hbody
  · rw [hempty]
    exact .nothing
  · exact hbody.legible_ungrouped hquote

/-- Two rules of sources, none of whose remarks has a single quote, have the same diagram
exactly if their trees are the same but for groups. -/
theorem diagram_text_eq_iff {source source' : String} {rule rule' : Rule}
    (h : parse source = .ok (some rule)) (h' : parse source' = .ok (some rule'))
    (hquote : ∀ leaf ∈ rule.root.leaves, leaf.1 = .remark → '\'' ∉ leaf.2.toList)
    (hquote' : ∀ leaf ∈ rule'.root.leaves, leaf.1 = .remark → '\'' ∉ leaf.2.toList) :
    rule.diagram.text = rule'.diagram.text ↔ rule.root.ungrouped = rule'.root.ungrouped := by
  have hcalls (node : Node) : node.calls = node.ungrouped.calls := by
    rw [Node.calls, Node.calls, Node.diagram_ungrouped]
  have hends : Node.EndsCalls "\n).addTo()\n".toList := ⟨'\n', _, rfl, .inr (.inr rfl)⟩
  have hlegible := (normal_of_parse_eq h).legible_root hquote
  have hlegible' := (normal_of_parse_eq h').legible_root hquote'
  rw [← String.toList_inj, toList_diagram, toList_diagram, List.append_cancel_left_eq,
    List.append_cancel_right_eq, hcalls, hcalls rule'.root]
  constructor
  · intro heq
    have happend := congrArg (· ++ "\n).addTo()\n".toList) heq
    exact (hlegible.readable hlegible' hends hends happend).1
  · intro heq
    rw [heq]

/-- A terminal that holds a comma and a parenthesis, an empty group, a loop around something
optional, and a remark. -/
def optionalInLoop : Rule :=
  ⟨"r", ⟨.choiceRight, "", [⟨.sequence, "", [.terminal "'a, ('", ⟨.group, "", []⟩,
    ⟨.loop, "", [⟨.group, "", [⟨.choiceRight, "", [.nonTerminal "b"]⟩]⟩]⟩, .remark "c"]⟩]⟩⟩

/-- The same with groups in other places. -/
def groupedInLoop : Rule :=
  ⟨"s", ⟨.choiceRight, "", [⟨.group, "", [⟨.sequence, "", [.terminal "'a, ('",
    ⟨.group, "", [⟨.group, "", []⟩]⟩,
    ⟨.loop, "", [⟨.group, "", [⟨.choiceRight, "", [
      ⟨.group, "", [⟨.group, "", [.nonTerminal "b"]⟩]⟩]⟩]⟩]⟩,
    ⟨.group, "", [.remark "c"]⟩]⟩]⟩]⟩⟩

/-- The same leaves and as many calls, but a loop that is optional. -/
def loopInOptional : Rule :=
  ⟨"r", ⟨.choiceRight, "", [⟨.sequence, "", [.terminal "'a, ('", ⟨.group, "", []⟩,
    ⟨.group, "", [⟨.choiceRight, "", [⟨.loop, "", [.nonTerminal "b"]⟩]⟩]⟩, .remark "c"]⟩]⟩⟩

/-- Groups make no difference to a diagram, but it does show which of a loop and an optional
branch stands inside of the other. -/
theorem diagram_text_eq_groups :
    parse "r : 'a, (' () (b | )+ [c] | ;" = .ok (some optionalInLoop) ∧
      parse "s : ('a, (' (()) (((b)) | )+ ([c])) |" = .ok (some groupedInLoop) ∧
      parse "r : 'a, (' () (b+ | ) [c] | ;" = .ok (some loopInOptional) ∧
      optionalInLoop.diagram.text = groupedInLoop.diagram.text ∧
      optionalInLoop.diagram.text ≠ loopInOptional.diagram.text := by
  have h : parse "r : 'a, (' () (b | )+ [c] | ;" = .ok (some optionalInLoop) := by
    decide +kernel
  have hgrouped : parse "s : ('a, (' (()) (((b)) | )+ ([c])) |" = .ok (some groupedInLoop) := by
    decide +kernel
  have hloop : parse "r : 'a, (' () (b+ | ) [c] | ;" = .ok (some loopInOptional) := by
    decide +kernel
  have hremark : ∀ leaf ∈ optionalInLoop.root.leaves, leaf.1 = .remark → '\'' ∉ leaf.2.toList := by
    decide
  exact ⟨h, hgrouped, hloop, (diagram_text_eq_iff h hgrouped hremark (by decide)).mpr (by decide),
    (diagram_text_eq_iff h hloop hremark (by decide)).not.mpr (by decide)⟩

end Rule

end Railroad
