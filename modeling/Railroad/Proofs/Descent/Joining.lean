import Railroad.Proofs.Alternation
import Railroad.Proofs.Descent.Steps

/-!
# Joining branches by their indices

A descent keeps the branches of an alternation and the bars between them in two lists, and
looks for an empty branch by its index.  There is one branch more than there are bars, so
that all indices are those of entries, and the tree is that of the alternation.

Main definitions:

- Definition {lit}`Alternation.bars`: the bars of an alternation that has been read.

Main results:

- Theorem {lit}`Descent.reads_join`: joining the branches of an alternation gives its tree.
-/

namespace Railroad

/-- The bars of an alternation that has been read, in order. -/
def Alternation.bars (a : Alternation) : List Span :=
  a.closed.reverse.map Prod.snd

namespace Descent

variable {source : String} {depth : Nat} {ts : List Token}

/-- An empty branch between two bars, by its index: `i` is the index of the bar in front
of it. -/
def FindsEmptyInner (bars : List Span) (found : Option Nat) (place : Option Span) : Prop :=
  (found = none ∧ place = none) ∨
    ∃ i before behind, found = some (i + 1) ∧ bars[i]? = some before ∧
      bars[i + 1]? = some behind ∧ place = some (before.merge behind)

/-- The branches behind the first bar are asked one after the other, where `front` stands
in front of that bar. -/
theorem exists_reads_emptyInner (front rest : List (Option Node × Span))
    (first : Option Node × Span) (last : Option Node) :
    ∃ found, Reads source depth
        ((List.range' (front.length + 1) rest.length).findM? fun i => do
          return (← checked ((front ++ first :: rest).map Prod.fst ++ [last])[i]?).isNone)
        ts (.ok found) ts ∧
      FindsEmptyInner ((front ++ first :: rest).map Prod.snd) found
        (Alternation.emptyInner? (first :: rest)) := by
  induction rest generalizing front first with
  | nil => exact ⟨none, reads_pure none, .inl ⟨rfl, by simp [Alternation.emptyInner?]⟩⟩
  | cons second rest ih =>
    obtain ⟨branch, bar⟩ := second
    have hentry : ((front ++ first :: (branch, bar) :: rest).map Prod.fst ++
        [last])[front.length + 1]? = some branch := by
      simp
    have hasked : Reads source depth (do
        return (← checked ((front ++ first :: (branch, bar) :: rest).map Prod.fst ++
          [last])[front.length + 1]?).isNone) ts (.ok branch.isNone) ts :=
      (reads_checked hentry).map
    cases branch with
    | none =>
      refine ⟨some (front.length + 1), hasked.bind (reads_pure _), .inr ?_⟩
      exact ⟨front.length, first.2, bar, rfl, by simp, by simp, by simp [Alternation.emptyInner?]⟩
    | some node =>
      obtain ⟨found, hreads, hfinds⟩ := ih (front ++ [first]) (some node, bar)
      rw [List.length_append, List.length_singleton, List.append_assoc,
        List.singleton_append] at hreads
      rw [List.append_assoc, List.singleton_append] at hfinds
      refine ⟨found, hasked.bind hreads, ?_⟩
      simpa only [Alternation.emptyInner?] using hfinds

theorem reads_joinFilled (nodes : List Node) (bar : Span) (bars : List Span) :
    Reads source depth (joinFilled nodes (bar :: bars)) ts
      (match Alternation.joinBranches? nodes with
        | none => .error (.emptyAlternative bar)
        | some node => .ok node) ts := by
  match nodes with
  | [] => exact (reads_checked rfl).bind (reads_throw _)
  | [node] => exact reads_checked rfl
  | first :: second :: nodes => exact reads_pure _

/-- Joining branches, of which all but the last come with a bar, gives their tree. -/
theorem reads_join_treeOf (closed : List (Option Node × Span)) (last : Option Node) :
    Reads source depth (join (closed.map Prod.fst ++ [last]) (closed.map Prod.snd)) ts
      (Alternation.treeOf closed last) ts := by
  match closed with
  | [] =>
    cases last with
    | none => exact reads_pure _
    | some node => exact reads_pure _
  | (first, bar) :: rest =>
    have hlast : less? (((first, bar) :: rest).map Prod.fst ++ [last]).length 1 =
        some (rest.length + 1) := by
      simp [less?]
    have hrightmost : (((first, bar) :: rest).map Prod.fst ++ [last])[rest.length + 1]? =
        some last := by
      simp
    have hfilled : (((first, bar) :: rest).map Prod.fst ++ [last]).filterMap id =
        ((first, bar) :: rest).filterMap Prod.fst ++ last.toList := by
      cases first <;> cases last <;> simp [List.filterMap_map]
    obtain ⟨found, hinner, hfinds⟩ :=
      @exists_reads_emptyInner source depth ts [] rest (first, bar) last
    refine (reads_checked hlast).bind ((reads_checked rfl).bind ((reads_checked hrightmost).bind
      (hinner.bind ?_)))
    rw [Alternation.treeOf]
    rcases hfinds with ⟨rfl, hplace⟩ | ⟨i, before, behind, rfl, hbefore, hbehind, hplace⟩
    · rw [hplace, hfilled]
      have hjoined := @reads_joinFilled source depth ts
        (((first, bar) :: rest).filterMap Prod.fst ++ last.toList) bar (rest.map Prod.snd)
      cases hjoin : Alternation.joinBranches?
          (((first, bar) :: rest).filterMap Prod.fst ++ last.toList) with
      | none =>
        rw [hjoin] at hjoined
        exact hjoined.bind_error
      | some node =>
        rw [hjoin] at hjoined
        exact hjoined.bind (reads_pure _)
    · have hindex : less? (i + 1) 1 = some i := by
        simp [less?]
      rw [hplace]
      exact (reads_checked hindex).bind ((reads_checked hbefore).bind
        ((reads_checked hbehind).bind (reads_throw _)))

/-- Joining the branches of an alternation gives its tree, or the fault of an empty branch. -/
theorem reads_join (a : Alternation) :
    Reads source depth (join a.branches a.bars) ts a.tree ts :=
  reads_join_treeOf a.closed.reverse a.branch

end Descent

end Railroad
