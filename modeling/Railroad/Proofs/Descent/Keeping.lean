import Railroad.Proofs.Descent.Simulation
import Railroad.Proofs.Descent.Watching
import Railroad.Proofs.Height

/-!
# Keeping within bounds

A piece of a descent that is watched keeps within bounds if every moment that it notes does,
whether it ends with a value, with a fault, or with none.  Steps in a row keep within bounds
if each of them does, and so does a loop whose rounds do.

Main definitions:

- Definition {lit}`Descent.Moment.Within`: the bounds on a moment of a descent.
- Definition {lit}`Descent.Watched.Keeps`: all moments that are noted are within the bounds.

Main results:

- Theorems {lit}`Descent.Watched.Keeps.bind` and {lit}`Descent.Watched.keeps_repeatUntilDone`:
  steps in a row and loops.
- Theorems {lit}`Descent.Watched.Keeps.call` and {lit}`Descent.Watched.Keeps.inGroup`: calls
  and groups.
-/

namespace Railroad

namespace Descent

/-! ## The bounds -/

/-- A tree that is neither nested too deeply nor too high. -/
structure Small (node : Node) : Prop where
  nesting : node.nesting ≤ maxNesting
  height : node.height ≤ 5 * maxNesting + 5

/-- The bounds on a moment of a descent. -/
structure Moment.Within (m : Moment) : Prop where
  calls : m.calls ≤ 5 * maxNesting + 6
  groups : m.groups ≤ maxNesting
  tree : ∀ node ∈ m.tree, Small node

namespace Watched

variable {α β : Type}

/-- Where `depth` groups are open and `calls` functions are being carried out, all moments
that are noted are within the bounds, and a value that is returned satisfies `post`. -/
def Keeps (source : String) (depth calls : Nat) (watched : Watched α) (post : α → Prop) : Prop :=
  ∀ d seen outcome d' seen', (∃ ts, At source depth ts d) → (∀ m ∈ seen, m.Within) →
    (watched.run calls).run.run (d, seen) = some (outcome, d', seen') →
      (∃ ts, At source depth ts d') ∧ (∀ m ∈ seen', m.Within) ∧ ∀ a, outcome = .ok a → post a

variable {source : String} {depth calls : Nat} {watched : Watched α} {post : α → Prop}
  {post' : β → Prop}

/-! ## What keeps within the bounds -/

theorem keeps_pure {a : α} (h : post a) : Keeps source depth calls (pure a) post := by
  intro d seen outcome d' seen' hd hseen hrun
  cases hrun
  refine ⟨hd, hseen, ?_⟩
  intro b hb
  cases hb
  exact h

/-- Steps in a row. -/
theorem Keeps.bind {f : α → Watched β} (h : Keeps source depth calls watched post)
    (h' : ∀ a, post a → Keeps source depth calls (f a) post') :
    Keeps source depth calls (watched >>= f) post' := by
  intro d seen outcome d' seen' hd hseen hrun
  rw [ReaderT.run_bind, ExceptT.run_bind, StateT.run_bind] at hrun
  obtain ⟨⟨first, d₁, seen₁⟩, hfirst, hrest⟩ := Option.bind_eq_some_iff.mp hrun
  obtain ⟨hd₁, hseen₁, hpost⟩ := h d seen first d₁ seen₁ hd hseen hfirst
  cases first with
  | ok a => exact h' a (hpost a rfl) d₁ seen₁ outcome d' seen' hd₁ hseen₁ hrest
  | error e =>
    cases hrest
    refine ⟨hd₁, hseen₁, ?_⟩
    intro b hb
    cases hb

/-- A plain step notes nothing. -/
theorem keeps_perform {step : Step α}
    (h : ∀ ts, ts <:+ Token.ofSource source → ∃ outcome rest,
      Reads source depth step ts outcome rest ∧ ∀ a, outcome = .ok a → post a) :
    Keeps source depth calls (perform step) post := by
  rintro d seen outcome d' seen' ⟨ts, hd⟩ hseen hrun
  obtain ⟨outcome₁, rest, hreads, hpost⟩ := h ts hd.suffix
  obtain ⟨d₁, hstep, hd₁⟩ := hreads d hd
  rw [run_perform, hstep] at hrun
  cases hrun
  exact ⟨⟨rest, hd₁⟩, hseen, hpost⟩

/-- A note on a moment within the bounds. -/
theorem Keeps.note {tree : Option Node} (h : Keeps source depth calls watched post)
    (hcalls : calls ≤ 5 * maxNesting + 6) (hdepth : depth ≤ maxNesting)
    (htree : ∀ node ∈ tree, Small node) :
    Keeps source depth calls (note tree >>= fun _ => watched) post := by
  rintro d seen outcome d' seen' ⟨ts, hd⟩ hseen hrun
  have hnoted : ∀ m ∈ seen ++ [⟨calls, d.depth, tree⟩], m.Within := by
    rw [List.forall_mem_append, List.forall_mem_singleton]
    exact ⟨hseen, hcalls, hd.depth_eq.le.trans hdepth, htree⟩
  exact h d _ outcome d' seen' ⟨ts, hd⟩ hnoted hrun

/-- A call of a function that keeps within the bounds, also in what it returns. -/
theorem Keeps.call {treeOf : α → Option Node} (h : Keeps source depth (calls + 1) watched post)
    (hcalls : calls + 1 ≤ 5 * maxNesting + 6) (hdepth : depth ≤ maxNesting)
    (htree : ∀ a, post a → ∀ node ∈ treeOf a, Small node) :
    Keeps source depth calls (call treeOf watched) post := by
  have hcalled : Keeps source depth (calls + 1)
      (Watched.note none >>= fun _ => watched >>= fun a =>
        Watched.note (treeOf a) >>= fun _ => pure a) post :=
    .note (h.bind fun a ha => .note (keeps_pure ha) hcalls hdepth (htree a ha)) hcalls hdepth
      (by simp)
  exact hcalled

/-- A call of a function that returns a tree. -/
theorem Keeps.call_some {watched : Watched Node} {post : Node → Prop}
    (h : Keeps source depth (calls + 1) watched post) (hcalls : calls + 1 ≤ 5 * maxNesting + 6)
    (hdepth : depth ≤ maxNesting) (hsmall : ∀ node, post node → Small node) :
    Keeps source depth calls (Descent.call some watched) post :=
  h.call hcalls hdepth (by simpa using hsmall)

/-- What keeps within the bounds inside of a group. -/
theorem Keeps.inGroup (h : Keeps source (depth + 1) calls watched post) :
    Keeps source depth calls (inGroup watched) post := by
  rintro d seen outcome d' seen' ⟨ts, hd⟩ hseen hrun
  rw [run_inGroup] at hrun
  obtain ⟨⟨outcome₁, d₁, seen₁⟩, hinner, hrest⟩ := Option.bind_eq_some_iff.mp hrun
  have hopened : At source (depth + 1) ts { d with depth := d.depth + 1 } :=
    ⟨hd.source_eq, hd.sound, hd.left_eq, congrArg (· + 1) hd.depth_eq⟩
  obtain ⟨⟨rest, hd₁⟩, hseen₁, hpost⟩ := h _ seen outcome₁ d₁ seen₁ ⟨ts, hopened⟩ hseen hinner
  have hdepth : less? d₁.depth 1 = some depth := by
    rw [hd₁.depth_eq, less?, if_pos (Nat.le_add_left 1 depth), Nat.add_sub_cancel]
  rw [hdepth] at hrest
  cases hrest
  exact ⟨⟨rest, hd₁.source_eq, hd₁.sound, hd₁.left_eq, rfl⟩, hseen₁, hpost⟩

/-- A loop keeps within the bounds if every round does: it leaves the invariant, or what
should hold behind the loop. -/
theorem keeps_untilDone {round : α → Watched (α ⊕ β)} (inv : α → Prop)
    (h : ∀ a, inv a → Keeps source depth calls (round a) (Sum.elim inv post'))
    (rounds : Nat) {a : α} (ha : inv a) :
    Keeps source depth calls (untilDone round rounds a) post' := by
  induction rounds generalizing a with
  | zero =>
    intro d seen outcome d' seen' _ _ hrun
    cases hrun
  | succ rounds ih =>
    refine (h a ha).bind fun result hresult => ?_
    cases result with
    | inl a => exact ih hresult
    | inr b => exact keeps_pure hresult

/-- So does a loop that ends when a round says so. -/
theorem keeps_repeatUntilDone {round : α → Watched (α ⊕ β)} (inv : α → Prop)
    (h : ∀ a, inv a → Keeps source depth calls (round a) (Sum.elim inv post')) {a : α}
    (ha : inv a) : Keeps source depth calls (repeatUntilDone round a) post' := by
  intro d seen outcome d' seen' hd hseen hrun
  exact keeps_untilDone inv h _ ha d seen outcome d' seen' hd hseen hrun

/-! ## Tokens and faults -/

theorem keeps_throw {e : Rule.Error} : Keeps source depth calls (perform (throw e)) post :=
  keeps_perform fun ts _ => ⟨_, ts, reads_throw e, fun _ h => by cases h⟩

/-- The next token, which may only be looked at, is one of the source. -/
theorem keeps_look : Keeps source depth calls (perform look)
    fun token => ∀ t ∈ token, t ∈ Token.ofSource source :=
  keeps_perform fun ts hts => ⟨_, ts, reads_look, fun _ h t ht => by
    cases h
    exact hts.subset (List.mem_of_mem_head? ht)⟩

/-- So is the token that is taken. -/
theorem keeps_take : Keeps source depth calls (perform take)
    fun token => ∀ t ∈ token, t ∈ Token.ofSource source :=
  keeps_perform fun ts hts => ⟨_, ts.tail, reads_take, fun _ h t ht => by
    cases h
    exact hts.subset (List.mem_of_mem_head? ht)⟩

/-- The text at the place of a token is that of the token. -/
theorem keeps_textAt {t : Token} (ht : t ∈ Token.ofSource source) :
    Keeps source depth calls (perform (textAt t.span)) (· = t.text) :=
  keeps_perform fun ts _ => ⟨_, ts, reads_textAt ht, fun _ h => by cases h; rfl⟩

/-- A place that is given for a wanted token is that of a token of the source. -/
theorem keeps_expect (kind : Token.Kind) (what : String) :
    Keeps source depth calls (perform (expect kind what))
      fun span => ∃ t ∈ Token.ofSource source, span = t.span := by
  refine keeps_perform fun ts hts => ?_
  cases ts with
  | nil => exact ⟨_, [], reads_expect_nil kind what, fun _ h => by cases h⟩
  | cons t ts =>
    by_cases hkind : t.kind = kind
    · refine ⟨_, ts, reads_expect hkind what, fun span h => ?_⟩
      cases h
      exact ⟨t, hts.subset List.mem_cons_self, rfl⟩
    · exact ⟨_, ts, reads_expect_of_ne hkind what, fun _ h => by cases h⟩

/-- A semicolon may be there or not. -/
theorem keeps_passSemicolon : Keeps source depth calls (perform passSemicolon) fun _ => True := by
  refine keeps_perform fun ts _ => ?_
  cases ts with
  | nil => exact ⟨_, [], reads_passSemicolon_of_ne (nextIs_nil _), fun _ _ => trivial⟩
  | cons t ts =>
    by_cases hkind : t.kind = .semicolon
    · exact ⟨_, ts, reads_passSemicolon hkind, fun _ _ => trivial⟩
    · exact ⟨_, t :: ts, reads_passSemicolon_of_ne (nextIs_cons.mpr hkind), fun _ _ => trivial⟩

/-- Behind the end of a rule any token is taken, and then it is a fault. -/
theorem keeps_expectEnd : Keeps source depth calls (perform expectEnd) fun _ => True :=
  keeps_perform fun ts _ => ⟨_, ts.tail, reads_expectEnd ts, fun _ _ => trivial⟩

end Watched

end Descent

end Railroad
