import Railroad.Rule.Descent

/-!
# A descent that is watched

The outcome of a descent does not tell what happens on the way to it.  Here its functions are
carried out in another manner: the moments are noted in which a function is called, returns a
tree, or has the nesting of a tree measured.  Without its notes it is the same descent.

Main definitions:

- Definition {lit}`Descent.Moment`: what is noted.
- Definition {lit}`Descent.Watched`: a piece of a descent that takes notes.
- Definition {lit}`Descent.Watched.rule`: reads a rule and takes notes.

Main results:

- Theorem {lit}`Descent.Watched.shows_rule`: without its notes, this is the plain descent.
-/

namespace Railroad.Descent

/-- A moment of a descent: how many of its functions are being carried out, each called by
the one before, how many groups are open, and the tree that is returned or measured, if there
is one. -/
structure Moment where
  calls : Nat
  groups : Nat
  tree : Option Node
deriving DecidableEq, Repr, Inhabited

/-- A piece of a descent that takes notes.  It is told how many functions are being carried
out. -/
abbrev Watched : Type → Type :=
  ReaderT Nat (ExceptT Rule.Error (StateT (Descent × List Moment) Option))

namespace Watched

variable {α β : Type}

/-! ## Taking notes -/

/-- Notes the moment, and the tree at hand. -/
def note (tree : Option Node) : Watched Unit :=
  fun calls (d, seen) => some (.ok (), d, seen ++ [⟨calls, d.depth, tree⟩])

/-- A step notes nothing.  The moment in which a function is called is noted, the one in which
it returns something, and the one in which a tree is about to be measured. -/
instance : Manner Watched where
  perform step := fun _ (d, seen) =>
    (ExceptT.run step d).map fun (outcome, d) => (outcome, d, seen)
  call treeOf function := withReader (· + 1) do
    note none
    let a ← function
    note (treeOf a)
    return a
  notice tree := note tree
  inGroup watched := fun calls (d, seen) => do
    let (outcome, d, seen) ← (watched.run calls).run.run ({ d with depth := d.depth + 1 }, seen)
    let depth ← less? d.depth 1
    return (outcome, { d with depth }, seen)

/-- Reads the rule that makes up everything that is left, and takes notes. -/
def rule : Watched (Option Rule) :=
  wholeRule

/-! ## What is done -/

/-- A step that is performed. -/
theorem run_perform (step : Step α) (calls : Nat) (d : Descent) (seen : List Moment) :
    ((perform step : Watched α).run calls).run.run (d, seen) =
      (step.run.run d).map fun (outcome, d) => (outcome, d, seen) := rfl

/-- What is done with one more group open. -/
theorem run_inGroup (watched : Watched α) (calls : Nat) (d : Descent) (seen : List Moment) :
    ((inGroup watched).run calls).run.run (d, seen) =
      ((watched.run calls).run.run ({ d with depth := d.depth + 1 }, seen)).bind fun result =>
        (less? result.2.1.depth 1).bind fun depth =>
          some (result.1, { result.2.1 with depth }, result.2.2) := rfl

/-! ## Without notes -/

/-- What is watched does the same as a step, apart from its notes. -/
def Shows (watched : Watched α) (step : Step α) : Prop :=
  ∀ calls d seen, ((watched.run calls).run.run (d, seen)).map (fun (outcome, d, _) => (outcome, d)) =
    step.run.run d

variable {watched : Watched α} {step : Step α}

theorem shows_pure (a : α) : Shows (pure a) (pure a) :=
  fun _ _ _ => rfl

/-- Steps in a row. -/
theorem Shows.bind {f : α → Watched β} {g : α → Step β} (h : Shows watched step)
    (h' : ∀ a, Shows (f a) (g a)) : Shows (watched >>= f) (step >>= g) := by
  intro calls d seen
  have hfirst := h calls d seen
  rw [ReaderT.run_bind, ExceptT.run_bind, StateT.run_bind, ExceptT.run_bind, StateT.run_bind,
    ← hfirst]
  cases (watched.run calls).run.run (d, seen) with
  | none => rfl
  | some result =>
    obtain ⟨outcome, d', seen'⟩ := result
    cases outcome with
    | ok a => exact h' a calls d' seen'
    | error e => rfl

/-- A step is performed as it stands. -/
theorem shows_perform (step : Step α) : Shows (perform step) (perform step) := by
  intro calls d seen
  rw [run_perform, Option.map_map]
  exact Option.map_id'

/-- The notes on a call change nothing. -/
theorem Shows.call (treeOf : α → Option Node) (h : Shows watched step) :
    Shows (call treeOf watched) (call treeOf step) := by
  intro calls d seen
  have hcalled := h (calls + 1) d (seen ++ [⟨calls + 1, d.depth, none⟩])
  have hrun : ((Descent.call treeOf watched).run calls).run.run (d, seen) =
      ((watched >>= fun a => note (treeOf a) >>= fun _ => pure a).run (calls + 1)).run.run
        (d, seen ++ [⟨calls + 1, d.depth, none⟩]) := rfl
  -- The two notes stand in front of the function and behind it, and neither is looked at there.
  have hplain : (Descent.call treeOf step : Step α) = step := rfl
  rw [hplain, ← hcalled, hrun, ReaderT.run_bind, ExceptT.run_bind, StateT.run_bind]
  cases (watched.run (calls + 1)).run.run (d, seen ++ [⟨calls + 1, d.depth, none⟩]) with
  | none => rfl
  | some result =>
    obtain ⟨outcome, d', seen'⟩ := result
    cases outcome with
    | ok a => rfl
    | error e => rfl

/-- Neither does a note on a tree. -/
theorem shows_notice (tree : Node) : Shows (notice tree) (notice tree) :=
  fun _ _ _ => rfl

/-- Watched inside of one more group a step is what it is there. -/
theorem Shows.inGroup (h : Shows watched step) : Shows (inGroup watched) (inGroup step) := by
  intro calls d seen
  have hinner := h calls { d with depth := d.depth + 1 } seen
  have hstep : (Descent.inGroup step : Step α).run.run d =
      (step.run.run { d with depth := d.depth + 1 }).bind fun result =>
        (less? result.2.depth 1).bind fun depth => some (result.1, { result.2 with depth }) := rfl
  rw [hstep, run_inGroup, ← hinner]
  cases (watched.run calls).run.run ({ d with depth := d.depth + 1 }, seen) with
  | none => rfl
  | some result =>
    obtain ⟨outcome, d', seen'⟩ := result
    simp only [Option.bind_some, Option.map_some]
    cases less? d'.depth 1 <;> rfl

/-! ## The functions of the descent -/

variable {watchedRound : α → Watched (α ⊕ β)} {round : α → Step (α ⊕ β)}

/-- Rounds are watched one by one, for as many as there are. -/
theorem Shows.untilDone (h : ∀ a, Shows (watchedRound a) (round a)) (rounds : Nat) (a : α) :
    Shows (untilDone watchedRound rounds a) (untilDone round rounds a) := by
  induction rounds generalizing a with
  | zero => exact shows_perform _
  | succ rounds ih =>
    refine (h a).bind fun result => ?_
    cases result with
    | inl a => exact ih a
    | inr b => exact shows_pure b

/-- So they are until one of them says that it was the last. -/
theorem Shows.repeatUntilDone (h : ∀ a, Shows (watchedRound a) (round a)) (a : α) :
    Shows (repeatUntilDone watchedRound a) (repeatUntilDone round a) :=
  (shows_perform get).bind fun _ => Shows.untilDone h _ a

variable {watchedInner : Watched Node} {inner : Step Node}

/-- A group is watched if what is inside of it is. -/
theorem shows_group (h : Shows watchedInner inner) (bracket : Span) :
    Shows (group watchedInner bracket) (group inner bracket) := by
  refine .call _ ((shows_perform openGroups).bind fun _ => ?_)
  split
  · exact shows_perform _
  · exact h.inGroup.bind fun _ => (shows_notice _).bind fun _ => shows_perform _

/-- So is the element that begins with a token. -/
theorem shows_elementOf (h : Shows watchedInner inner) (t : Token) (text : String) :
    Shows (elementOf watchedInner t text) (elementOf inner t text) := by
  unfold elementOf
  cases t.kind with
  | identifier | terminal => exact shows_pure _
  | remark => exact (shows_perform _).bind fun _ => shows_pure _
  | openParen => exact shows_group h t.span
  | openBracket | singleQuote | doubleQuote | malformed => exact shows_perform _
  | colon | semicolon | bar | plus | closeParen => exact shows_perform _

theorem shows_element (h : Shows watchedInner inner) :
    Shows (element watchedInner) (element inner) := by
  refine .call _ ((shows_perform take).bind fun token => ?_)
  cases token with
  | none => exact shows_perform _
  | some t => exact (shows_perform _).bind fun text => shows_elementOf h t text

theorem shows_repeated (h : Shows watchedInner inner) :
    Shows (repeated watchedInner) (repeated inner) :=
  .call _ ((shows_element h).bind fun _ => (shows_notice _).bind fun _ =>
    Shows.repeatUntilDone (fun _ => shows_perform _) _)

theorem shows_nextElement (h : Shows watchedInner inner) (nodes : List Node) :
    Shows (nextElement watchedInner nodes) (nextElement inner nodes) := by
  refine (shows_perform look).bind fun token => ?_
  cases token with
  | none => exact shows_pure _
  | some t =>
    dsimp only
    split
    · exact shows_pure _
    · exact (shows_repeated h).bind fun _ => shows_pure _

theorem shows_branch (h : Shows watchedInner inner) :
    Shows (branch watchedInner) (branch inner) :=
  .call _ ((Shows.repeatUntilDone (shows_nextElement h) []).bind fun _ => shows_pure _)

theorem shows_nextBranch (h : Shows watchedInner inner)
    (state : List (Option Node) × List Span) :
    Shows (nextBranch watchedInner state) (nextBranch inner state) := by
  obtain ⟨branches, bars⟩ := state
  refine (shows_perform look).bind fun token => ?_
  cases token with
  | none => exact shows_pure _
  | some t =>
    dsimp only
    split
    · exact (shows_perform take).bind fun _ => (shows_branch h).bind fun _ => shows_pure _
    · exact shows_pure _

/-- An alternation is watched, whatever the number of groups that it may open. -/
theorem shows_alternatives (levels : Nat) :
    Shows (alternatives levels) (alternatives levels) := by
  induction levels with
  | zero => exact shows_perform _
  | succ levels ih =>
    exact .call _ ((shows_branch ih).bind fun _ =>
      (Shows.repeatUntilDone (shows_nextBranch ih) _).bind fun _ => shows_perform _)

/-- Without its notes, the descent that is watched is the plain one. -/
theorem shows_rule : Shows rule Descent.rule := by
  refine .call _ ((shows_perform look).bind fun token => ?_)
  cases token with
  | none => exact shows_pure _
  | some t =>
    refine (shows_perform _).bind fun span => (shows_perform _).bind fun name =>
      (shows_perform _).bind fun _ => (shows_alternatives _).bind fun root =>
      (shows_perform _).bind fun _ => (shows_perform _).bind fun _ => shows_pure _

end Watched

end Railroad.Descent
