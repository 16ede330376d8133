import Railroad.Proofs.Descent.Following
import Railroad.Proofs.Nesting

/-!
# Elements by descent and by a machine

An element of a branch, and the plus signs behind it, are read by descent and by the machine
with a stack of open groups.  Both do the same, if they do so with the alternation of a group.
The fault of that alternation is found by the token that ends it, which is not read.

Main definitions:

- Definition {lit}`Descent.ReadsAlternation`: reading an alternation does what the machine
  does.

Main results:

- Theorem {lit}`Descent.follows_group`: a group follows the machine.
- Theorem {lit}`Descent.follows_repeated`: so does an element with plus signs.
-/

namespace Railroad.Descent

variable {source : String} {depth : Nat} {before : Alternation} {t : Token}
  {ts rest : List Token} {alternatives : Step Node}

/-! ## The end of an alternation -/

/-- The next token is of such a kind, or there is none. -/
def NextIs (p : Token.Kind → Prop) (ts : List Token) : Prop :=
  ∀ t, ts.head? = some t → p t.kind

theorem nextIs_nil (p : Token.Kind → Prop) : NextIs p [] := by
  simp [NextIs]

@[simp] theorem nextIs_cons {p : Token.Kind → Prop} : NextIs p (t :: ts) ↔ p t.kind := by
  simp [NextIs]

/-- The kinds of tokens that end an alternation. -/
def ClosesAlternation (kind : Token.Kind) : Prop :=
  kind = .closeParen ∨ kind = .semicolon

/-- The kinds of tokens that end a branch. -/
def ClosesBranch (kind : Token.Kind) : Prop :=
  kind = .bar ∨ kind = .closeParen ∨ kind = .semicolon

/-- What a step does that reads an alternation: it has the tree of what the machine has read
in front of the token that ends the alternation, or the fault that the machine has found
before. -/
inductive ReadsAlternation (source : String) (depth : Nat) (step : Step Node) (ts : List Token) :
    Prop
  | tree {after : Alternation} {rest : List Token}
      (hreads : Reads source depth step ts after.tree rest)
      (hleads : Leads depth .empty ts after rest) (hsuffix : rest <:+ ts)
      (hends : NextIs ClosesAlternation rest) :
      ReadsAlternation source depth step ts
  | fault {e : Rule.Error} {rest : List Token}
      (hreads : Reads source depth step ts (.error e) rest)
      (hfails : Fails depth .empty ts e rest) : ReadsAlternation source depth step ts

/-- The step reads alternations with one more group around them, in front of the last tokens
of a source. -/
def ReadsInner (source : String) (depth : Nat) (alternatives : Step Node) : Prop :=
  depth < maxNesting → ∀ ts, ts <:+ Token.ofSource source →
    ReadsAlternation source (depth + 1) alternatives ts

/-- Where an alternation ends, the machine finds its fault, and does not read the token that
ends it. -/
theorem run_of_tree_eq_error {a : Alternation} {e : Rule.Error}
    (hends : NextIs ClosesAlternation ts) (htree : a.tree = .error e) (size : Nat) (name : String)
    (groups : List OpenGroup) :
    (Reading.body name ⟨groups, a⟩).run size ts = (.error e, ts) := by
  cases ts with
  | nil =>
    rw [Reading.run, Reading.finish, htree]
    rfl
  | cons t ts =>
    have hstep : (Reading.body name ⟨groups, a⟩).step t = .error ⟨e, false⟩ := by
      rcases nextIs_cons.mp hends with hkind | hkind
      · simp only [Reading.step, hkind, Reading.closeGroup, Reading.complete, htree, error_bind]
      · simp only [Reading.step, hkind, Reading.closeBody, Reading.complete, htree, error_bind]
    exact Reading.run_of_step_eq_error hstep ts

/-! ## Groups -/

/-- In front of `ts`, where `after` has been read inside of a group, the machine ends the
group with its tree and goes on around it, or finds a fault. -/
def EndsGroup (before after : Alternation) (bracket : Span) (ts : List Token)
    (outcome : Except Rule.Error Node) (rest : List Token) : Prop :=
  ∀ (size : Nat) (name : String) (groups : List OpenGroup),
    (Reading.body name ⟨⟨bracket, before⟩ :: groups, after⟩).run size ts =
      match outcome with
      | .ok node => (Reading.body name ⟨groups, before.push node⟩).run size rest
      | .error e => (.error e, rest)

/-- A group that is open at the end of the tokens is not closed. -/
theorem endsGroup_nil {after : Alternation} {inner : Node} (htree : after.tree = .ok inner)
    (bracket : Span) :
    EndsGroup before after bracket [] (.error (.unclosedDelimiter '(' bracket)) [] := by
  intro size name groups
  rw [Reading.run, Reading.finish, htree]
  rfl

/-- A parenthesis ends the group with its tree, unless that nests too deeply. -/
theorem endsGroup_closeParen {after : Alternation} {inner : Node} (hkind : t.kind = .closeParen)
    (htree : after.tree = .ok inner) (bracket : Span) :
    EndsGroup before after bracket (t :: ts) (Body.groupOf bracket inner) ts := by
  intro size name groups
  cases hgroup : Body.groupOf bracket inner with
  | ok node =>
    have hstep : (Reading.body name ⟨⟨bracket, before⟩ :: groups, after⟩).step t =
        .ok (.body name ⟨groups, before.push node⟩) := by
      simp only [Reading.step, hkind, Reading.closeGroup, Reading.complete, htree, ok_bind,
        hgroup, Reading.ofRead]
      rfl
    exact Reading.run_of_step_eq_ok hstep ts
  | error e =>
    have hstep : (Reading.body name ⟨⟨bracket, before⟩ :: groups, after⟩).step t =
        .error ⟨e, true⟩ := by
      simp only [Reading.step, hkind, Reading.closeGroup, Reading.complete, htree, ok_bind,
        hgroup, Reading.ofRead, error_bind]
    exact Reading.run_of_step_eq_error hstep ts

/-- A semicolon stands where the group should be closed. -/
theorem endsGroup_semicolon {after : Alternation} {inner : Node} (hkind : t.kind = .semicolon)
    (htree : after.tree = .ok inner) (bracket : Span) :
    EndsGroup before after bracket (t :: ts)
      (.error (.unexpectedToken "')'" t.kind.text t.span)) ts := by
  intro size name groups
  have hstep : (Reading.body name ⟨⟨bracket, before⟩ :: groups, after⟩).step t =
      .error ⟨.unexpectedToken "')'" t.kind.text t.span, true⟩ := by
    simp only [Reading.step, hkind, Reading.closeBody, Reading.complete, htree, ok_bind,
      Reading.expected]
  exact Reading.run_of_step_eq_error hstep ts

/-- The end of a group, by descent and by the machine. -/
theorem exists_reads_closeGroup {after : Alternation} {inner : Node}
    (htree : after.tree = .ok inner) (hends : NextIs ClosesAlternation ts) (bracket : Span) :
    ∃ outcome rest, Reads source depth (closeGroup bracket inner) ts outcome rest ∧
      EndsGroup before after bracket ts outcome rest ∧ rest <:+ ts := by
  cases ts with
  | nil =>
    exact ⟨_, [], reads_take.bind (reads_throw _), endsGroup_nil htree bracket,
      List.suffix_refl []⟩
  | cons t ts =>
    have htake : Reads source depth take (t :: ts) (.ok (some t)) ts := reads_take
    rcases nextIs_cons.mp hends with hkind | hkind
    · refine ⟨_, ts, htake.bind ?_, endsGroup_closeParen hkind htree bracket,
        List.suffix_cons t ts⟩
      simp only [if_pos hkind]
      exact reads_ofExcept _
    · refine ⟨_, ts, htake.bind ?_, endsGroup_semicolon hkind htree bracket,
        List.suffix_cons t ts⟩
      simp only [hkind, reduceCtorEq, if_false]
      exact reads_throw _

/-- What an element does to an alternation, where `ts` stand in front of it. -/
def Pushes (before : Alternation) (ts : List Token) (node : Node) (after : Alternation)
    (rest : List Token) : Prop :=
  after = before.push node ∧ rest.length < ts.length

/-- An alternation that a step reads and the end of the group around it, by descent and by the
machine. -/
theorem exists_reads_bind_closeGroup {step : Step Node} {after : Alternation}
    (hreads : Reads source depth step ts after.tree rest) (hends : NextIs ClosesAlternation rest)
    (bracket : Span) :
    ∃ outcome rest', Reads source depth (step >>= closeGroup bracket) ts outcome rest' ∧
      EndsGroup before after bracket rest outcome rest' ∧ rest' <:+ rest := by
  cases htree : after.tree with
  | error e =>
    rw [htree] at hreads
    have hmachine : EndsGroup before after bracket rest (.error e) rest :=
      fun size name groups => run_of_tree_eq_error hends htree size name _
    exact ⟨.error e, rest, hreads.bind_error, hmachine, List.suffix_refl rest⟩
  | ok inner =>
    rw [htree] at hreads
    obtain ⟨outcome, rest', hclose, hmachine, hsuffix⟩ :=
      exists_reads_closeGroup htree hends bracket
    exact ⟨outcome, rest', hreads.bind hclose, hmachine, hsuffix⟩

/-- The machine opens a group at an opening parenthesis. -/
theorem run_openParen (hkind : t.kind = .openParen) {groups : List OpenGroup}
    (hgroups : groups.length < maxNesting) (size : Nat) (name : String) (ts : List Token) :
    (Reading.body name ⟨groups, before⟩).run size (t :: ts) =
      (Reading.body name ⟨⟨t.span, before⟩ :: groups, .empty⟩).run size ts := by
  have hstep : Body.step ⟨groups, before⟩ t = .ok ⟨⟨t.span, before⟩ :: groups, .empty⟩ := by
    rw [Reading.body_step_openParen hkind, if_neg (Nat.not_le.mpr hgroups)]
  exact Reading.run_of_step_eq_ok
    (Reading.step_of_body_step_eq_ok hstep (by simp [hkind]) (by simp [hkind])) ts

/-- A group that may be opened follows the machine from behind its opening parenthesis, if the
step that reads its alternation does. -/
theorem follows_openGroup (hkind : t.kind = .openParen) (hdepth : depth < maxNesting)
    (halternatives : ReadsAlternation source (depth + 1) alternatives ts) :
    Follows source depth (inGroup alternatives >>= closeGroup t.span) (Pushes before (t :: ts))
      before (t :: ts) ts := by
  cases halternatives with
  | fault hreads hfails =>
    refine .fault hreads.inGroup.bind_error ?_
    rintro size name groups rfl
    rw [run_openParen hkind hdepth]
    exact hfails size name _ rfl
  | @tree after rest hreads hleads hsuffix hends =>
    have hrun : ∀ (size : Nat) (name : String) (groups : List OpenGroup), groups.length = depth →
        (Reading.body name ⟨groups, before⟩).run size (t :: ts) =
          (Reading.body name ⟨⟨t.span, before⟩ :: groups, after⟩).run size rest := by
      rintro size name groups rfl
      rw [run_openParen hkind hdepth]
      exact hleads size name _ rfl
    obtain ⟨outcome, rest', hgroup, hmachine, hsuffix'⟩ :=
      exists_reads_bind_closeGroup hreads.inGroup hends t.span
    cases outcome with
    | error e =>
      exact .fault hgroup fun size name groups hgroups =>
        (hrun size name groups hgroups).trans (hmachine size name groups)
    | ok node =>
      have hbehind : rest' <:+ ts := hsuffix'.trans hsuffix
      exact .value hgroup
        (fun size name groups hgroups =>
          (hrun size name groups hgroups).trans (hmachine size name groups))
        (hbehind.trans (List.suffix_cons t ts)) ⟨rfl, Nat.lt_succ_of_le hbehind.length_le⟩

/-- So does any group, also if it may not be opened. -/
theorem follows_group (hts : ts <:+ Token.ofSource source) (hkind : t.kind = .openParen)
    (halternatives : ReadsInner source depth alternatives) :
    Follows source depth (group alternatives t.span) (Pushes before (t :: ts)) before
      (t :: ts) ts := by
  refine .behind reads_openGroups ?_
  by_cases hdepth : depth ≥ maxNesting
  · rw [if_pos hdepth]
    refine follows_throw (fails_of_step (by simp [hkind]) (by simp [hkind]) ?_)
    rintro groups rfl
    rw [Reading.body_step_openParen hkind, if_pos hdepth]
  · rw [if_neg hdepth]
    have hlt : depth < maxNesting := Nat.lt_of_not_le hdepth
    exact follows_openGroup hkind hlt (halternatives hlt ts hts)

/-! ## Elements -/

/-- The text between the brackets of an annotation can be cut out. -/
theorem reads_remarkText {text : String} (h : IsBracketed text.toList) :
    Reads source depth (remarkText text) ts (.ok (Body.remarkText text)) ts := by
  obtain ⟨inner, htext, -⟩ := h
  have hlength : less? (Text.byteLength text.toList) 1 = some (1 + Text.byteLength inner) := by
    have hsize : '['.utf8Size = 1 ∧ ']'.utf8Size = 1 := by decide
    simp only [htext, Text.byteLength_cons, Text.byteLength_append, Text.byteLength_nil, less?,
      hsize]
    rw [if_pos (by omega)]
    congr 1
  have hslice : Text.slice? text.toList ⟨1, 1 + Text.byteLength inner⟩ = some inner := by
    rw [htext]
    exact Text.slice?_append ['['] inner [']']
  have hremark : Body.remarkText text = String.ofList (Text.trim inner) := by
    rw [Body.remarkText, htext]
    simp
  rw [hremark]
  exact (reads_checked hlength).bind ((reads_checked hslice).bind (reads_pure _))

/-- An element without plus signs follows the machine. -/
theorem follows_element (hts : t :: ts <:+ Token.ofSource source) (hstays : ¬ClosesBranch t.kind)
    (hplus : t.kind = .plus → before.elements = [])
    (halternatives : ReadsInner source depth alternatives) :
    Follows source depth (element alternatives) (Pushes before (t :: ts)) before
      (t :: ts) (t :: ts) := by
  obtain ⟨hbar, hclose, hend⟩ := by simpa only [ClosesBranch, not_or] using hstays
  have ht : t ∈ Token.ofSource source := hts.subset List.mem_cons_self
  have hlt : ts.length < (t :: ts).length := Nat.lt_succ_self _
  -- The machine still stands in front of the token that the descent has taken.
  refine .behind reads_take (.behind (reads_textAt ht) ?_)
  change Follows source depth (elementOf alternatives t t.text) _ before (t :: ts) ts
  have hleaf {node : Node}
      (h : ∀ groups : List OpenGroup, groups.length = depth →
        Body.step ⟨groups, before⟩ t = .ok ⟨groups, before.push node⟩) :
      Follows source depth (pure node) (Pushes before (t :: ts)) before (t :: ts) ts :=
    follows_pure_of_leads (leads_of_step hclose hend h) ⟨rfl, hlt⟩
  have hfault {e : Rule.Error}
      (h : ∀ groups : List OpenGroup, groups.length = depth →
        Body.step ⟨groups, before⟩ t = .error e) :
      Follows source depth (throw e) (Pushes before (t :: ts)) before (t :: ts) ts :=
    follows_throw (fails_of_step hclose hend h)
  rw [elementOf]
  cases hkind : t.kind with
  | bar | closeParen | semicolon => contradiction
  | openParen => exact follows_group ((List.suffix_cons t ts).trans hts) hkind halternatives
  | identifier | terminal =>
    refine hleaf fun groups _ => ?_
    rw [Body.step, hkind]
    rfl
  | remark =>
    have hspelled : t.Spelled := Token.spelled_of_mem_ofText ht
    rw [Token.Spelled, hkind] at hspelled
    refine .behind (reads_remarkText hspelled) (hleaf fun groups _ => ?_)
    rw [Body.step, hkind]
    rfl
  | openBracket | singleQuote | doubleQuote | malformed =>
    refine hfault fun groups _ => ?_
    rw [Body.step, hkind]
    rfl
  | colon =>
    refine hfault fun groups _ => ?_
    rw [Body.step, hkind]
  | plus =>
    refine hfault fun groups _ => ?_
    rw [Body.step, hkind]
    simp only [Body.repeatLast, hplus hkind, hkind]

/-! ## Repeated elements -/

/-- The plus signs behind an element follow the machine, which repeats the element. -/
theorem follows_plusSign (hts : ts <:+ Token.ofSource source) (node : Node) :
    Follows source depth (repeatUntilDone plusSign (node, node.nesting))
      (fun node after rest => after = before.push node ∧ NextIs (· ≠ .plus) rest)
      (before.push node) ts ts := by
  refine follows_repeatUntilDone
    (fun state current _ => current = before.push state.1 ∧ state.2 = state.1.nesting)
    ?_ hts ⟨rfl, rfl⟩
  rintro ⟨node, level⟩ _ ts - ⟨rfl, hlevel⟩
  obtain rfl : level = node.nesting := hlevel
  refine .behind reads_look ?_
  cases ts with
  | nil => exact follows_pure ⟨rfl, nextIs_nil _⟩
  | cons t ts =>
    simp only [List.head?_cons]
    by_cases hkind : t.kind = .plus
    · rw [if_pos hkind]
      refine .behind reads_take ?_
      by_cases hdeep : node.nesting + 1 > maxNesting
      · rw [if_pos hdeep]
        refine follows_throw (fails_of_step (by simp [hkind]) (by simp [hkind]) ?_)
        intro groups _
        rw [Reading.body_step_plus hkind, if_pos hdeep]
      · rw [if_neg hdeep]
        have hnesting : node.nesting + 1 = (Node.wrap .loop node).nesting := by
          rw [Node.wrap_eq .loop node rfl, Node.nesting_singleton_of_nests rfl]
        refine follows_pure_of_leads (leads_of_step (by simp [hkind]) (by simp [hkind]) ?_)
          ⟨Nat.lt_succ_self _, rfl, hnesting⟩
        intro groups _
        rw [Reading.body_step_plus hkind, if_neg hdeep]
    · rw [if_neg hkind]
      exact follows_pure ⟨rfl, nextIs_cons.mpr hkind⟩

/-- An element with the plus signs behind it follows the machine. -/
theorem follows_repeated (hts : t :: ts <:+ Token.ofSource source)
    (hstays : ¬ClosesBranch t.kind) (hplus : t.kind = .plus → before.elements = [])
    (halternatives : ReadsInner source depth alternatives) :
    Follows source depth (repeated alternatives)
      (fun node after rest =>
        Pushes before (t :: ts) node after rest ∧ NextIs (· ≠ .plus) rest)
      before (t :: ts) (t :: ts) := by
  refine (follows_element hts hstays hplus halternatives).bind ?_
  rintro node _ rest hrest ⟨rfl, hlt⟩
  refine (follows_plusSign (hrest.trans hts) node).mono ?_
  rintro node' _ rest' hrest' ⟨rfl, hstop⟩
  exact ⟨⟨rfl, Nat.lt_of_le_of_lt hrest'.length_le hlt⟩, hstop⟩

end Railroad.Descent
