import Railroad.Proofs.Descent.Elements
import Railroad.Proofs.Descent.Joining
import Railroad.Rule.Parser

/-!
# Reading by descent and reading by a machine

The descent that reads a rule and the machine with a stack of open groups read the same
tokens, with the same outcome.  The functions of the descent are taken one after the other:
each follows the machine if those that it calls do, and the groups that may still be opened
bound how often an alternation reads an alternation inside of it.

No operation of the descent that may be impossible fails on the way.

Main results:

- Theorems {lit}`Descent.follows_branch` and {lit}`Descent.readsAlternation_alternatives`:
  branches and alternations.
- Theorem {lit}`Descent.reads_rule`: reading a rule has the outcome of the machine.
- Theorem {lit}`Descent.exists_rules_ofSource_eq`: so has reading again and again.
-/

namespace Railroad

/-- A parser that has been asked `n` times. -/
def Rule.Parser.asked : Nat → Parser → Parser
  | 0, p => p
  | n + 1, p => asked n p.next.2

namespace Descent

variable {source : String} {depth : Nat} {before : Alternation} {t : Token}
  {ts rest : List Token} {alternatives : Step Node}

/-! ## Branches -/

/-- What is known of the elements of a branch while it is read: behind them no plus sign
follows, and in front of the first there is nothing to repeat. -/
def ReadsElements (before : Alternation) (nodes : List Node) (current : Alternation)
    (rest : List Token) : Prop :=
  current = { before with elements := nodes.reverse } ∧ (nodes ≠ [] → NextIs (· ≠ .plus) rest)

/-- The elements of a branch follow the machine. -/
theorem follows_elements (halternatives : ReadsInner source depth alternatives)
    (hts : ts <:+ Token.ofSource source) (hbefore : before.elements = []) :
    Follows source depth (repeatUntilDone (nextElement alternatives) [])
      (fun nodes after rest =>
        after = { before with elements := nodes.reverse } ∧ NextIs ClosesBranch rest)
      before ts ts := by
  have hstart : ReadsElements before [] before ts := by
    refine ⟨?_, fun hne => absurd rfl hne⟩
    rw [List.reverse_nil, ← hbefore]
  refine follows_repeatUntilDone (ReadsElements before) ?_ hts hstart
  rintro nodes _ ts hts ⟨rfl, hnodes⟩
  refine .behind reads_look ?_
  cases ts with
  | nil => exact follows_pure ⟨rfl, nextIs_nil _⟩
  | cons t ts =>
    simp only [List.head?_cons]
    by_cases hkind : t.kind = .bar ∨ t.kind = .closeParen ∨ t.kind = .semicolon
    · rw [if_pos hkind]
      exact follows_pure ⟨rfl, nextIs_cons.mpr hkind⟩
    · rw [if_neg hkind]
      have hplus : t.kind = .plus → nodes.reverse = [] := by
        intro hplus
        by_contra hne
        exact nextIs_cons.mp (hnodes (by simpa using hne)) hplus
      refine (follows_repeated hts hkind hplus halternatives).bind ?_
      rintro node _ rest - ⟨⟨rfl, hlt⟩, hstop⟩
      refine follows_pure ⟨hlt, ?_, fun _ => hstop⟩
      simp [Alternation.push]

/-- A branch has been read, which stands behind the branches of `before`. -/
def ReadsBranch (before : Alternation) (tree : Option Node) (after : Alternation)
    (rest : List Token) : Prop :=
  after.closed = before.closed ∧ tree = after.branch ∧ NextIs ClosesBranch rest

/-- A branch that begins behind a bar or at the beginning follows the machine. -/
theorem follows_branch (halternatives : ReadsInner source depth alternatives)
    (hts : ts <:+ Token.ofSource source) (hbefore : before.elements = []) :
    Follows source depth (branch alternatives) (ReadsBranch before) before ts ts := by
  refine (follows_elements halternatives hts hbefore).bind ?_
  rintro nodes _ rest - ⟨rfl, hends⟩
  refine follows_pure ⟨rfl, ?_, hends⟩
  rw [Alternation.branch, List.reverse_reverse]

/-! ## Alternations -/

/-- What is known of the branches of an alternation and of its bars when a branch has been
read. -/
def ReadsBranches (alternation : List (Option Node) × List Span) (current : Alternation) : Prop :=
  alternation.1 = current.branches ∧ alternation.2 = current.bars

/-- The bars and branches behind the first branch follow the machine. -/
theorem follows_branches (halternatives : ReadsInner source depth alternatives)
    (hts : ts <:+ Token.ofSource source) {alternation : List (Option Node) × List Span}
    (hbefore : ReadsBranches alternation before) (hends : NextIs ClosesBranch ts) :
    Follows source depth (repeatUntilDone (nextBranch alternatives) alternation)
      (fun alternation after rest =>
        ReadsBranches alternation after ∧ NextIs ClosesAlternation rest)
      before ts ts := by
  refine follows_repeatUntilDone
    (fun alternation current rest => ReadsBranches alternation current ∧ NextIs ClosesBranch rest)
    ?_ hts ⟨hbefore, hends⟩
  rintro ⟨_, _⟩ current ts hts ⟨⟨rfl, rfl⟩, hends⟩
  refine .behind reads_look ?_
  cases ts with
  | nil =>
    exact follows_pure ⟨⟨rfl, rfl⟩, nextIs_nil _⟩
  | cons t ts =>
    simp only [List.head?_cons]
    by_cases hkind : t.kind = .bar
    · rw [if_pos hkind]
      have hleads : Leads depth current (t :: ts) (current.bar t.span) ts := by
        refine leads_of_step (by simp [hkind]) (by simp [hkind]) ?_
        intro groups _
        rw [Body.step, hkind]
      have hbranch : Follows source depth (branch alternatives)
          (fun tree after rest => rest.length < (t :: ts).length ∧
            ReadsBranch (current.bar t.span) tree after rest)
          (current.bar t.span) ts ts :=
        (follows_branch halternatives ((List.suffix_cons t ts).trans hts) rfl).mono
          fun _ _ _ hrest hpost => ⟨Nat.lt_succ_of_le hrest.length_le, hpost⟩
      refine .behind reads_take ((hbranch.advance hleads).bind ?_)
      rintro tree after rest - ⟨hlt, hclosed, rfl, hends⟩
      refine follows_pure ⟨hlt, ⟨?_, ?_⟩, hends⟩
      · simp [Alternation.branches, Alternation.bar, hclosed]
      · simp [Alternation.bars, Alternation.bar, hclosed]
    · rw [if_neg hkind]
      refine follows_pure ⟨⟨rfl, rfl⟩, nextIs_cons.mpr ?_⟩
      exact (nextIs_cons.mp hends).resolve_left hkind

/-- The levels of groups that may still be opened are enough for an alternation, and for all
alternations inside of it. -/
theorem readsAlternation_alternatives (levels : Nat) (hlevels : maxNesting < levels + depth)
    (hdepth : depth ≤ maxNesting) (hts : ts <:+ Token.ofSource source) :
    ReadsAlternation source depth (Descent.alternatives levels) ts := by
  induction levels generalizing depth ts with
  | zero =>
    -- More groups would be open than may be.
    omega
  | succ levels ih =>
    have hinner : ReadsInner source depth (Descent.alternatives levels) := fun hlt ts hts =>
      ih (by omega) hlt hts
    have hempty : Alternation.empty.elements = [] := rfl
    cases follows_branch hinner hts hempty with
    | fault hreads hfails => exact .fault hreads.bind_error hfails
    | @value first after rest hreads hleads hsuffix hpost =>
      obtain ⟨hclosed, rfl, hends⟩ := hpost
      have hbefore : ReadsBranches ([after.branch], []) after := by
        constructor
        · simp [Alternation.branches, hclosed, Alternation.empty]
        · simp [Alternation.bars, hclosed, Alternation.empty]
      cases follows_branches hinner (hsuffix.trans hts) hbefore hends with
      | fault hreads' hfails =>
        exact .fault (hreads.bind hreads'.bind_error) (hleads.fails hfails)
      | @value alternation after' rest' hreads' hleads' hsuffix' hpost' =>
        obtain ⟨branches, bars⟩ := alternation
        obtain ⟨⟨rfl, rfl⟩, hends'⟩ := hpost'
        exact .tree (hreads.bind (hreads'.bind (reads_join after'))) (hleads.trans hleads')
          (hsuffix'.trans hsuffix) hends'

/-! ## Rules -/

theorem reads_passSemicolon_of_ne (h : NextIs (· ≠ .semicolon) ts) :
    Reads source depth passSemicolon ts (.ok ()) ts := by
  refine reads_look.bind ?_
  cases ts with
  | nil => exact reads_pure ()
  | cons t ts =>
    simp only [List.head?_cons, if_neg (nextIs_cons.mp h)]
    exact reads_pure ()

theorem reads_passSemicolon (hkind : t.kind = .semicolon) :
    Reads source depth passSemicolon (t :: ts) (.ok ()) ts := by
  refine reads_look.bind ?_
  simp only [List.head?_cons, if_pos hkind]
  exact reads_take.map

/-- What is left behind a rule is refused. -/
theorem reads_expectEnd (ts : List Token) :
    Reads source depth expectEnd ts
      (match ts.head? with
        | none => .ok ()
        | some t => .error (.unexpectedToken "end of rule" t.kind.text t.span)) ts.tail := by
  refine reads_take.bind ?_
  cases ts with
  | nil => exact reads_pure ()
  | cons t ts => exact reads_throw _

/-- The end of a rule, by descent and by the machine. -/
theorem reads_ending {a : Alternation} {root : Node} (htree : a.tree = .ok root)
    (hends : NextIs ClosesAlternation ts) (size : Nat) (name : String) :
    Reads source depth (do passSemicolon; expectEnd; return some ⟨name, root⟩) ts
      ((Reading.body name ⟨[], a⟩).run size ts).1 ((Reading.body name ⟨[], a⟩).run size ts).2 := by
  cases ts with
  | nil =>
    have hrun : (Reading.body name ⟨[], a⟩).run size [] = (.ok (some ⟨name, root⟩), []) := by
      rw [Reading.run, Reading.finish, htree]
      rfl
    rw [hrun]
    exact (reads_passSemicolon_of_ne (nextIs_nil _)).bind ((reads_expectEnd []).bind (reads_pure _))
  | cons t ts =>
    rcases nextIs_cons.mp hends with hkind | hkind
    · have hstep : (Reading.body name ⟨[], a⟩).step t =
          .error ⟨.unexpectedToken "end of rule" t.kind.text t.span, true⟩ := by
        simp only [Reading.step, hkind, Reading.closeGroup, Reading.complete, htree, ok_bind,
          Reading.expected]
      rw [Reading.run_of_step_eq_error hstep]
      have hother : NextIs (· ≠ .semicolon) (t :: ts) := by simp [hkind]
      exact (reads_passSemicolon_of_ne hother).bind (reads_expectEnd (t :: ts)).bind_error
    · have hstep : (Reading.body name ⟨[], a⟩).step t = .ok (.closed name root) := by
        simp only [Reading.step, hkind, Reading.closeBody, Reading.complete, htree, ok_bind]
        rfl
      rw [Reading.run_of_step_eq_ok hstep]
      refine (reads_passSemicolon hkind).bind ?_
      cases ts with
      | nil => exact (reads_expectEnd []).bind (reads_pure _)
      | cons u us => exact (reads_expectEnd (u :: us)).bind_error

/-- The alternatives of a rule and its end, by descent and by the machine. -/
theorem reads_body (hts : ts <:+ Token.ofSource source) (size : Nat) (name : String) :
    Reads source 0
      (do
        let root ← Descent.alternatives (maxNesting + 1)
        passSemicolon
        expectEnd
        return some ⟨name, root⟩) ts
      ((Reading.body name .empty).run size ts).1 ((Reading.body name .empty).run size ts).2 := by
  cases readsAlternation_alternatives (maxNesting + 1) (by omega) (Nat.zero_le _) hts with
  | fault hreads hfails =>
    rw [Body.empty, hfails size name [] rfl]
    exact hreads.bind_error
  | @tree after rest hreads hleads hsuffix hends =>
    rw [Body.empty, hleads size name [] rfl]
    cases htree : after.tree with
    | error e =>
      rw [htree] at hreads
      rw [run_of_tree_eq_error hends htree]
      exact hreads.bind_error
    | ok root =>
      rw [htree] at hreads
      exact hreads.bind (reads_ending htree hends size name)

/-- Reading a rule by descent has the outcome of the machine, and leaves the same tokens. -/
theorem reads_rule (hts : ts <:+ Token.ofSource source) :
    Reads source 0 rule ts
      (Reading.start.run (Text.byteLength source.toList) ts).1
      (Reading.start.run (Text.byteLength source.toList) ts).2 := by
  refine reads_look.bind ?_
  cases ts with
  | nil => exact reads_pure none
  | cons t ts =>
    have ht : t ∈ Token.ofSource source := hts.subset List.mem_cons_self
    have hts' : ts <:+ Token.ofSource source := (List.suffix_cons t ts).trans hts
    by_cases hname : t.kind = .identifier
    · rw [Reading.run_of_step_eq_ok (Reading.step_start hname)]
      refine (reads_expect hname _).bind ((reads_textAt ht).bind ?_)
      cases ts with
      | nil => exact (reads_expect_nil _ _).bind_error
      | cons u us =>
        by_cases hcolon : u.kind = .colon
        · rw [Reading.run_of_step_eq_ok (Reading.step_named hcolon)]
          exact (reads_expect hcolon _).bind
            (reads_body ((List.suffix_cons u us).trans hts') _ t.text)
        · rw [Reading.run_of_step_eq_error (Reading.step_named_of_ne hcolon)]
          exact (reads_expect_of_ne hcolon _).bind_error
    · rw [Reading.run_of_step_eq_error (Reading.step_start_of_ne hname)]
      exact (reads_expect_of_ne hname _).bind_error

/-- Reading again and again has the outcomes of the machine, which can therefore all be
computed. -/
theorem exists_rules_eq {d : Descent} {p : Rule.Parser} (hd : At source 0 p.tokens d)
    (hsize : p.size = Text.byteLength source.toList) (n : Nat) :
    ∃ d', rules n d = some (p.outcomes n, d') ∧ At source 0 (p.asked n).tokens d' := by
  induction n generalizing d p with
  | zero => exact ⟨d, rfl, hd⟩
  | succ n ih =>
    obtain ⟨d₁, hrule, hd₁⟩ := reads_rule hd.suffix d hd
    rw [← hsize] at hrule hd₁
    have hd₁' : At source 0 p.next.2.tokens d₁ := hd₁
    obtain ⟨d', hrules, hd'⟩ := ih hd₁' hsize
    refine ⟨d', ?_, hd'⟩
    have hsplit : rules (n + 1) d = (rule.run.run d).bind fun first =>
        (rules n first.2).bind fun others => some (first.1 :: others.1, others.2) := rfl
    rw [hsplit, hrule, Option.bind_some, hrules, Option.bind_some]
    rfl

/-- The outcomes of reading a source again and again. -/
theorem exists_rules_ofSource_eq (source : String) (n : Nat) :
    ∃ d, rules n (ofSource source) = some ((Rule.Parser.ofSource source).outcomes n, d) ∧
      At source 0 ((Rule.Parser.ofSource source).asked n).tokens d :=
  exists_rules_eq (at_ofSource source) rfl n

end Descent

end Railroad
