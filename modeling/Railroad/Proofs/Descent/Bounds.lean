import Railroad.Proofs.Descent.Keeping
import Railroad.Proofs.NormalForm
import Railroad.Proofs.Recursion

/-!
# What a descent is bounded by

However long a source is, and wherever it is faulty, its descent never stands in more groups
than may be open, and never has a tree in hand that is nested more deeply or is higher than
the tree of a rule can be.  So the functions that call each other, and those that go down
trees, do so within constant bounds.

Main definitions:

- Definition {lit}`Descent.Fits`: what is known of every tree that is built on the way.

Main results:

- Theorem {lit}`Descent.Watched.keeps_alternatives`: reading an alternation keeps within the
  bounds.
- Theorem {lit}`Descent.Watched.keeps_rule`: so does reading a rule.
- Theorem {lit}`Descent.moments_within`: what is never exceeded while a source is read.
-/

namespace Railroad

namespace Descent

/-! ## Trees that are built on the way -/

/-- A tree in normal form that is not nested too deeply. -/
structure Fits (layer : Node.Layer) (node : Node) : Prop where
  normal : node.Normal layer
  nesting : node.nesting ≤ maxNesting

/-- The tree of an alternation: in normal form, unless the alternation is empty. -/
def FitsAlternation (node : Node) : Prop :=
  node = ⟨.sequence, "", []⟩ ∨ Fits .body node

/-- A tree of any layer is nested no more deeply, and is no higher, than a tree of a rule can
be. -/
theorem Fits.small {layer : Node.Layer} {node : Node} (h : Fits layer node) : Small node := by
  have hheight := h.normal.height_le
  have hrank : layer.rank ≤ 5 := by
    cases layer <;> decide
  have hnesting := h.nesting
  exact ⟨hnesting, by omega⟩

/-- So is the tree of an alternation, as an empty sequence has neither groups nor children. -/
theorem FitsAlternation.small {node : Node} (h : FitsAlternation node) : Small node := by
  rcases h with rfl | h
  · exact ⟨by decide, by decide⟩
  · exact h.small

theorem Fits.kind_ne_sequence {node : Node} (h : Fits .element node) : node.kind ≠ .sequence := by
  obtain ⟨hnormal, -⟩ := h
  cases hnormal <;> simp

theorem Fits.kind_ne_choice {node : Node} (h : Fits .branch node) : node.kind ≠ .choice := by
  obtain ⟨hnormal, -⟩ := h
  cases hnormal with
  | sequence hlength hnodes => simp
  | single hnode => cases hnode <;> simp

/-- A leaf carries no group or loop. -/
theorem fits_leaf {kind : Kind} {value : String}
    (h : Node.Normal .element ⟨kind, value, []⟩) (hkind : kind.nests = false) :
    Fits .element ⟨kind, value, []⟩ := by
  refine ⟨h, ?_⟩
  rw [Node.nesting_leaf, hkind]
  exact Nat.zero_le _

/-- A loop around an element that is not nested too deeply for it. -/
theorem Fits.loop {node : Node} (h : Fits .element node) (hnesting : node.nesting < maxNesting) :
    Fits .element (Node.wrap .loop node) ∧
      (Node.wrap .loop node).nesting = node.nesting + 1 := by
  have hloop : (Node.wrap .loop node).nesting = node.nesting + 1 := by
    rw [Node.wrap_eq .loop node rfl, Node.nesting_singleton_of_nests rfl]
  refine ⟨⟨?_, hloop.trans_le hnesting⟩, hloop⟩
  rw [Node.wrap_eq .loop node rfl]
  exact .loop h.normal

/-- The tree of a group around an alternation, if that is not nested too deeply. -/
theorem fits_of_groupOf_eq_ok {bracket : Span} {inner node : Node} (hinner : FitsAlternation inner)
    (h : Body.groupOf bracket inner = .ok node) : Fits .element node := by
  unfold Body.groupOf at h
  split at h
  · cases h
    exact ⟨.emptyGroup, by decide⟩
  · rename_i hfilled
    split at h
    · cases h
    · rename_i hshallow
      cases h
      rcases hinner with rfl | hinner
      · exact absurd ⟨rfl, rfl⟩ hfilled
      · rw [Node.wrap_eq .group _ rfl]
        refine ⟨.group hinner.normal, ?_⟩
        rw [Node.nesting_singleton_of_nests rfl]
        omega

/-- The tree of a branch with some elements. -/
theorem fits_of_branchOf_eq_some {nodes : List Node} {node : Node}
    (hnodes : ∀ node ∈ nodes, Fits .element node) (h : Alternation.branchOf nodes = some node) :
    Fits .branch node := by
  rw [Alternation.branchOf_eq nodes fun node hnode => (hnodes node hnode).kind_ne_sequence] at h
  exact ⟨Grammar.normal_of_branchTree_eq h fun node hnode => (hnodes node hnode).normal,
    Grammar.nesting_le_of_branchTree_eq h fun node hnode => (hnodes node hnode).nesting⟩

/-- The tree of an alternation with some branches. -/
theorem fits_of_treeOf_eq_ok {closed : List (Option Node × Span)} {last : Option Node}
    {node : Node}
    (hbranches : ∀ node, some node ∈ closed.map Prod.fst ++ [last] → Fits .branch node)
    (h : Alternation.treeOf closed last = .ok node) : FitsAlternation node := by
  have hkinds : ∀ node, some node ∈ closed.map Prod.fst ++ [last] → node.kind ≠ .choice :=
    fun node hnode => (hbranches node hnode).kind_ne_choice
  obtain ⟨hfilled, rfl⟩ := (Alternation.treeOf_eq_ok_iff closed last node hkinds).mp h
  by_cases hnone : closed.map Prod.fst ++ [last] = [none]
  · rw [hnone]
    exact .inl rfl
  · refine .inr ⟨?_, ?_⟩
    · exact Grammar.normal_alternationTree (by simp) hnone hfilled
        fun node hnode => (hbranches node hnode).normal
    · exact (Grammar.nesting_alternationTree_le_iff _ _).mpr
        fun node hnode => (hbranches node hnode).nesting

namespace Watched

variable {source : String} {depth : Nat} {inner : Watched Node}

/-! ## Groups -/

/-- Closing a group calls nothing, and checks how deeply the group is nested. -/
theorem keeps_closeGroup {calls : Nat} (bracket : Span) {inner : Node}
    (hinner : FitsAlternation inner) :
    Keeps source depth calls (perform (closeGroup bracket inner)) (Fits .element) := by
  refine keeps_perform fun ts _ => ?_
  cases ts with
  | nil => exact ⟨_, [], reads_take.bind (reads_throw _), fun _ h => by cases h⟩
  | cons t ts =>
    have htake : Reads source depth take (t :: ts) (.ok (some t)) ts := reads_take
    by_cases hkind : t.kind = .closeParen
    · refine ⟨Body.groupOf bracket inner, ts, htake.bind ?_,
        fun node h => fits_of_groupOf_eq_ok hinner h⟩
      simp only [if_pos hkind]
      exact reads_ofExcept _
    · refine ⟨.error (.unexpectedToken "')'" t.kind.text t.span), ts, htake.bind ?_,
        fun _ h => by cases h⟩
      simp only [if_neg hkind]
      exact reads_throw _

/-- What reads the alternation inside of a group keeps within the bounds, if the group may be
opened.

The functions around a group at some depth are called from `5 * depth` others and one more:
the alternation, its branch, the element with its plus signs and the element in front of
those, and the group.  Then it starts over. -/
def KeepsInside (source : String) (depth : Nat) (inner : Watched Node) : Prop :=
  depth < maxNesting → Keeps source (depth + 1) (5 * (depth + 1) + 1) inner FitsAlternation

/-- Reading a group keeps within the bounds, if reading what is inside of it does. -/
theorem keeps_group (hinner : KeepsInside source depth inner) (hdepth : depth ≤ maxNesting)
    (bracket : Span) :
    Keeps source depth (5 * depth + 5) (group inner bracket) (Fits .element) := by
  refine .call_some ?_ (by omega) hdepth fun _ => Fits.small
  have hgroups : Keeps source depth (5 * depth + 5 + 1) (perform openGroups) (· = depth) :=
    keeps_perform fun ts _ => ⟨_, ts, reads_openGroups, fun _ h => by cases h; rfl⟩
  refine hgroups.bind ?_
  rintro depth rfl
  split
  · exact keeps_throw
  · rename_i hopen
    have hlt : depth < maxNesting := Nat.lt_of_not_le hopen
    refine (hinner hlt).inGroup.bind fun tree htree => ?_
    exact (keeps_closeGroup bracket htree).note (by omega) hdepth (by simpa using htree.small)

/-! ## Elements -/

/-- So does reading the element that begins with a token. -/
theorem keeps_elementOf (hinner : KeepsInside source depth inner) (hdepth : depth ≤ maxNesting)
    {t : Token} (ht : t ∈ Token.ofSource source) :
    Keeps source depth (5 * depth + 5) (elementOf inner t t.text) (Fits .element) := by
  have hspelled : t.Spelled := Token.spelled_of_mem_ofText ht
  unfold elementOf
  cases hkind : t.kind with
  | identifier =>
    rw [Token.Spelled, hkind] at hspelled
    exact keeps_pure (fits_leaf (.name hspelled) rfl)
  | terminal =>
    rw [Token.Spelled, hkind] at hspelled
    exact keeps_pure (fits_leaf (.terminal hspelled) rfl)
  | remark =>
    rw [Token.Spelled, hkind] at hspelled
    have hremark : Keeps source depth (5 * depth + 5) (perform (remarkText t.text))
        (· = Body.remarkText t.text) :=
      keeps_perform fun ts _ => ⟨_, ts, reads_remarkText hspelled, fun _ h => by cases h; rfl⟩
    refine hremark.bind ?_
    rintro _ rfl
    exact keeps_pure (fits_leaf (Grammar.normal_remark hspelled) rfl)
  | openParen => exact keeps_group hinner hdepth t.span
  | openBracket | singleQuote | doubleQuote | malformed => exact keeps_throw
  | colon | semicolon | bar | plus | closeParen => exact keeps_throw

/-- So does reading an element, whichever token is next. -/
theorem keeps_element (hinner : KeepsInside source depth inner) (hdepth : depth ≤ maxNesting) :
    Keeps source depth (5 * depth + 4) (element inner) (Fits .element) := by
  refine .call_some ?_ (by omega) hdepth fun _ => Fits.small
  refine keeps_take.bind fun token htoken => ?_
  cases token with
  | none => exact keeps_perform fun ts _ => ⟨_, ts, reads_sourceEnd.bind (reads_throw _), by simp⟩
  | some t =>
    have ht : t ∈ Token.ofSource source := htoken t rfl
    refine (keeps_textAt ht).bind ?_
    rintro _ rfl
    exact keeps_elementOf hinner hdepth ht

/-- What is known of the element in front of a plus sign, and of the count that goes with it. -/
def FitsCounted (state : Node × Nat) : Prop :=
  Fits .element state.1 ∧ state.2 = state.1.nesting

/-- A plus sign puts a loop around an element only if that is not nested too deeply for it, and
the count stays that of the element. -/
theorem keeps_plusSign {calls : Nat} {state : Node × Nat} (hstate : FitsCounted state) :
    Keeps source depth calls (perform (plusSign state))
      (Sum.elim FitsCounted (Fits .element)) := by
  obtain ⟨node, level⟩ := state
  obtain ⟨hnode, hlevel⟩ := hstate
  obtain rfl : level = node.nesting := hlevel
  refine keeps_perform fun ts _ => ?_
  cases ts with
  | nil =>
    refine ⟨.ok (.inr node), [], reads_look.bind (reads_pure _), fun _ h => ?_⟩
    cases h
    exact hnode
  | cons t ts =>
    have hlook : Reads source depth look (t :: ts) (.ok (some t)) (t :: ts) := reads_look
    by_cases hkind : t.kind = .plus
    · by_cases hdeep : node.nesting + 1 > maxNesting
      · refine ⟨.error (.tooDeep maxNesting t.span), ts, hlook.bind ?_, fun _ h => by cases h⟩
        simp only [if_pos hkind, if_pos hdeep]
        exact reads_take.bind (reads_throw _)
      · refine ⟨.ok (.inl (Node.wrap .loop node, node.nesting + 1)), ts, hlook.bind ?_,
          fun _ h => ?_⟩
        · simp only [if_pos hkind, if_neg hdeep]
          exact reads_take.bind (reads_pure _)
        · cases h
          obtain ⟨hloop, hlevel⟩ := hnode.loop (Nat.le_of_not_lt hdeep)
          exact ⟨hloop, hlevel.symm⟩
    · refine ⟨.ok (.inr node), t :: ts, hlook.bind ?_, fun _ h => ?_⟩
      · simp only [if_neg hkind]
        exact reads_pure _
      · cases h
        exact hnode

/-- Reading an element and the plus signs behind it keeps within the bounds. -/
theorem keeps_repeated (hinner : KeepsInside source depth inner) (hdepth : depth ≤ maxNesting) :
    Keeps source depth (5 * depth + 3) (repeated inner) (Fits .element) := by
  refine .call_some ?_ (by omega) hdepth fun _ => Fits.small
  refine (keeps_element hinner hdepth).bind fun node hnode => ?_
  refine .note ?_ (by omega) hdepth (by simpa using hnode.small)
  exact keeps_repeatUntilDone FitsCounted (fun _ => keeps_plusSign) ⟨hnode, rfl⟩

/-! ## Branches -/

/-- One round of reading a branch adds an element that fits, or ends the branch. -/
theorem keeps_nextElement (hinner : KeepsInside source depth inner) (hdepth : depth ≤ maxNesting)
    {nodes : List Node} (hnodes : ∀ node ∈ nodes, Fits .element node) :
    Keeps source depth (5 * depth + 3) (nextElement inner nodes)
      (Sum.elim (fun nodes => ∀ node ∈ nodes, Fits .element node)
        (fun nodes => ∀ node ∈ nodes, Fits .element node)) := by
  refine keeps_look.bind fun token _ => ?_
  cases token with
  | none => exact keeps_pure hnodes
  | some t =>
    dsimp only
    split
    · exact keeps_pure hnodes
    · refine (keeps_repeated hinner hdepth).bind fun node hnode => keeps_pure ?_
      exact List.forall_mem_append.mpr ⟨hnodes, List.forall_mem_singleton.mpr hnode⟩

/-- Reading a branch keeps within the bounds, however long it is. -/
theorem keeps_branch (hinner : KeepsInside source depth inner) (hdepth : depth ≤ maxNesting) :
    Keeps source depth (5 * depth + 2) (branch inner)
      (fun tree => ∀ node, tree = some node → Fits .branch node) := by
  refine .call ?_ (by omega) hdepth fun tree htree node hnode => (htree node hnode).small
  refine (keeps_repeatUntilDone (fun nodes => ∀ node ∈ nodes, Fits .element node)
    (fun _ hnodes => keeps_nextElement hinner hdepth hnodes) (by simp)).bind fun nodes hnodes => ?_
  exact keeps_pure fun node hnode => fits_of_branchOf_eq_some hnodes hnode

/-! ## Alternations -/

/-- What is known of the branches of an alternation and of its bars: there is one branch more
than there are bars. -/
def FitsBranches (state : List (Option Node) × List Span) : Prop :=
  (∃ (closed : List (Option Node × Span)) (last : Option Node),
    state = (closed.map Prod.fst ++ [last], closed.map Prod.snd)) ∧
      ∀ node, some node ∈ state.1 → Fits .branch node

/-- One more bar, and the branch behind it. -/
theorem FitsBranches.snoc {branches : List (Option Node)} {bars : List Span}
    (h : FitsBranches (branches, bars)) (bar : Span) {tree : Option Node}
    (htree : ∀ node, tree = some node → Fits .branch node) :
    FitsBranches (branches ++ [tree], bars ++ [bar]) := by
  obtain ⟨⟨closed, last, hstate⟩, hbranches⟩ := h
  obtain ⟨rfl, rfl⟩ := Prod.mk.inj hstate
  refine ⟨⟨closed ++ [(last, bar)], tree, by simp⟩, fun node hnode => ?_⟩
  rcases List.mem_append.mp hnode with hnode | hnode
  · exact hbranches node hnode
  · exact htree node (List.mem_singleton.mp hnode).symm

/-- One round of reading an alternation adds a bar and a branch that fits, or ends the
alternation. -/
theorem keeps_nextBranch (hinner : KeepsInside source depth inner) (hdepth : depth ≤ maxNesting)
    {state : List (Option Node) × List Span} (hstate : FitsBranches state) :
    Keeps source depth (5 * depth + 2) (nextBranch inner state)
      (Sum.elim FitsBranches FitsBranches) := by
  obtain ⟨branches, bars⟩ := state
  refine keeps_look.bind fun token _ => ?_
  cases token with
  | none => exact keeps_pure hstate
  | some t =>
    dsimp only
    split
    · refine keeps_take.bind fun _ _ => (keeps_branch hinner hdepth).bind fun tree htree => ?_
      exact keeps_pure (hstate.snoc t.span htree)
    · exact keeps_pure hstate

/-- Joining branches calls nothing, and makes the tree of an alternation. -/
theorem keeps_join {calls : Nat} {branches : List (Option Node)} {bars : List Span}
    (h : FitsBranches (branches, bars)) :
    Keeps source depth calls (perform (join branches bars)) FitsAlternation := by
  obtain ⟨⟨closed, last, hstate⟩, hbranches⟩ := h
  obtain ⟨rfl, rfl⟩ := Prod.mk.inj hstate
  exact keeps_perform fun ts _ => ⟨_, ts, reads_join_treeOf closed last,
    fun node hnode => fits_of_treeOf_eq_ok hbranches hnode⟩

/-- Reading an alternation keeps within the bounds, if it may stand where it stands. -/
theorem keeps_alternatives (levels : Nat) (hdepth : depth ≤ maxNesting) :
    Keeps source depth (5 * depth + 1) (alternatives levels) FitsAlternation := by
  induction levels generalizing depth with
  | zero =>
    -- No alternation can be read at all.
    intro d seen outcome d' seen' _ _ hrun
    cases hrun
  | succ levels ih =>
    have hinner : KeepsInside source depth (alternatives levels) := fun hlt => ih hlt
    refine .call_some ?_ (by omega) hdepth fun _ => FitsAlternation.small
    refine (keeps_branch hinner hdepth).bind fun first hfirst => ?_
    have hstart : FitsBranches ([first], []) :=
      ⟨⟨[], first, rfl⟩, fun node hnode => hfirst node (List.mem_singleton.mp hnode).symm⟩
    exact (keeps_repeatUntilDone FitsBranches
      (fun _ hstate => keeps_nextBranch hinner hdepth hstate) hstart).bind
        fun _ hstate => keeps_join hstate

/-! ## Rules -/

/-- Reading a rule keeps within the bounds. -/
theorem keeps_rule :
    Keeps source 0 0 rule fun found => ∀ rule, found = some rule → FitsAlternation rule.root := by
  refine .call ?_ (by decide) (Nat.zero_le _) fun found hfound node hnode => ?_
  · refine keeps_look.bind fun token _ => ?_
    cases token with
    | none => exact keeps_pure (by simp)
    | some t =>
      refine (keeps_expect .identifier "rule name").bind ?_
      rintro _ ⟨u, hu, rfl⟩
      refine (keeps_textAt hu).bind fun name _ => (keeps_expect .colon "':'").bind fun _ _ => ?_
      refine (keeps_alternatives _ (Nat.zero_le _)).bind fun root hroot => ?_
      refine keeps_passSemicolon.bind fun _ _ => keeps_expectEnd.bind fun _ _ => ?_
      refine keeps_pure fun rule hrule => ?_
      cases hrule
      exact hroot
  · obtain ⟨rule, rfl, rfl⟩ := Option.map_eq_some_iff.mp hnode
    exact (hfound rule rfl).small

end Watched

/-- A small tree has short paths, and whatever is computed from it takes few calls. -/
theorem Small.bounded {node : Node} (h : Small node) :
    node.PathsWithin 256 1285 ∧ node.RecursionWithin 1285 :=
  ⟨Node.pathsWithin h.nesting h.height, Node.recursionWithin h.height⟩

/-- Whether a source is a rule or not, and however long it is: its descent can be carried out,
never stands in more than 256 groups, and never has more than 1286 functions under way.  No
tree that one of these functions returns, or of which the nesting is measured, has a path with
more than 256 groups and loops or with more than 1285 nodes, so that neither this measuring nor
writing the tree in any form takes more than 1285 calls inside of each other. -/
theorem moments_within (source : String) :
    ∃ d moments,
      rule.run.run (ofSource source) = some (Rule.parse source, d) ∧
      (Watched.rule.run 0).run.run (ofSource source, []) =
        some (Rule.parse source, d, moments) ∧
      (∀ moment ∈ moments, moment.groups ≤ 256 ∧ moment.calls ≤ 1286 ∧
        ∀ tree ∈ moment.tree, tree.PathsWithin 256 1285 ∧ tree.RecursionWithin 1285) ∧
      ∀ found, Rule.parse source = .ok (some found) →
        found.root.PathsWithin 256 1285 ∧ found.root.RecursionWithin 1285 := by
  obtain ⟨d, hrule, -⟩ := reads_rule (List.suffix_refl _) _ (at_ofSource source)
  have hparse : rule.run.run (ofSource source) = some (Rule.parse source, d) := hrule
  have hshown := Watched.shows_rule 0 (ofSource source) []
  rw [hparse] at hshown
  obtain ⟨⟨outcome, d', moments⟩, hwatched, hsame⟩ := Option.map_eq_some_iff.mp hshown
  obtain ⟨rfl, rfl⟩ := Prod.mk.inj hsame
  obtain ⟨-, hmoments, hroot⟩ :=
    Watched.keeps_rule _ _ _ _ _ ⟨_, at_ofSource source⟩ (by simp) hwatched
  refine ⟨d', moments, hparse, hwatched, fun moment hmoment => ?_, fun found hfound => ?_⟩
  · have hwithin := hmoments moment hmoment
    exact ⟨hwithin.groups, hwithin.calls, fun tree htree => (hwithin.tree tree htree).bounded⟩
  · exact (hroot _ hfound found rfl).small.bounded

/-- Also where a group is never closed, what is read inside of it keeps within the bounds. -/
theorem moments_within_unclosed :
    ∃ d moments,
      (Watched.rule.run 0).run.run (ofSource "r : ((a)+ |", []) =
        some (Rule.parse "r : ((a)+ |", d, moments) ∧
      ⟨15, 2, some (.nonTerminal "a")⟩ ∈ moments ∧
      (⟨.loop, "", [⟨.group, "", [.nonTerminal "a"]⟩]⟩ : Node).PathsWithin 256 1285 ∧
      ⟨9, 1, some ⟨.loop, "", [⟨.group, "", [.nonTerminal "a"]⟩]⟩⟩ ∈ moments := by
  obtain ⟨d, moments, -, hwatched, hwithin, -⟩ := moments_within "r : ((a)+ |"
  have hnoted : ((Watched.rule.run 0).run.run (ofSource "r : ((a)+ |", [])).map
      (fun (_, _, moments) =>
        decide (⟨15, 2, some (.nonTerminal "a")⟩ ∈ moments ∧
          ⟨9, 1, some ⟨.loop, "", [⟨.group, "", [.nonTerminal "a"]⟩]⟩⟩ ∈ moments)) =
      some true := by
    decide +kernel
  rw [hwatched, Option.map_some, Option.some_inj, decide_eq_true_iff] at hnoted
  obtain ⟨hname, hloop⟩ := hnoted
  exact ⟨d, moments, hwatched, hname, ((hwithin _ hloop).2.2 _ rfl).1, hloop⟩

end Descent

end Railroad
