import Railroad.Proofs.Token.Lookahead
import Railroad.Rule.Descent

/-!
# Steps of a descent

What a step of a descent does depends on the tokens that are left and on the number of
open groups, not on whether the scanner has looked at a token.  Steps in a row, and a step
that is repeated, do one thing after the other.

Main definitions:

- Definition {lit}`Descent.At`: where a descent stands.
- Definition {lit}`Descent.Reads`: a step can be done, and what it does.
- Definition {lit}`Descent.Loops`: the rounds of a step that is repeated.

Main results:

- Theorems {lit}`Descent.Reads.bind` and {lit}`Descent.Reads.bind_error`: steps in a row.
- Theorem {lit}`Descent.Loops.reads`: a loop whose rounds take tokens comes to its end.
- Theorem {lit}`Descent.Reads.inGroup`: a group that is opened for a step is closed
  behind it.
-/

namespace Railroad.Descent

/-- The descent stands in a source inside of `depth` groups, and `ts` are left. -/
structure At (source : String) (depth : Nat) (ts : List Token) (d : Descent) : Prop where
  source_eq : d.scanner.source = source
  sound : d.scanner.Sound
  left_eq : d.scanner.left = ts
  depth_eq : d.depth = depth

/-- In front of a source all tokens are left. -/
theorem at_ofSource (source : String) : At source 0 (Token.ofSource source) (ofSource source) :=
  ⟨rfl, Scanner.sound_ofSource source, rfl, rfl⟩

/-- The tokens that are left are the last of the source. -/
theorem At.suffix {source : String} {depth : Nat} {ts : List Token} {d : Descent}
    (h : At source depth ts d) : ts <:+ Token.ofSource source := by
  rw [← h.left_eq, ← h.source_eq]
  exact h.sound.left_suffix

variable {α β : Type}

/-- In front of `ts` and inside of `depth` groups, the step can be done.  It ends with
`outcome` in front of `rest`, and as many groups are open as before. -/
def Reads (source : String) (depth : Nat) (step : Step α) (ts : List Token)
    (outcome : Except Rule.Error α) (rest : List Token) : Prop :=
  ∀ d, At source depth ts d → ∃ d', step.run.run d = some (outcome, d') ∧ At source depth rest d'

variable {source : String} {depth : Nat} {ts rest rest' : List Token} {step : Step α}

/-! ## Steps in a row -/

theorem reads_pure (a : α) : Reads source depth (pure a) ts (.ok a) ts :=
  fun d h => ⟨d, rfl, h⟩

theorem reads_throw (e : Rule.Error) :
    Reads source depth (throw e : Step α) ts (.error e) ts :=
  fun d h => ⟨d, rfl, h⟩

theorem reads_ofExcept (outcome : Except Rule.Error α) :
    Reads source depth (MonadExcept.ofExcept outcome : Step α) ts outcome ts := by
  cases outcome with
  | ok a => exact reads_pure a
  | error e => exact reads_throw e

/-- The value of an operation that can be carried out. -/
theorem reads_checked {value : Option α} {a : α} (h : value = some a) :
    Reads source depth (checked value) ts (.ok a) ts := by
  subst h
  exact fun d h => ⟨d, rfl, h⟩

/-- A step behind one that has a value. -/
theorem Reads.bind {f : α → Step β} {a : α} {outcome : Except Rule.Error β}
    (h : Reads source depth step ts (.ok a) rest)
    (h' : Reads source depth (f a) rest outcome rest') :
    Reads source depth (step >>= f) ts outcome rest' := by
  intro d hd
  obtain ⟨d₁, hstep, hd₁⟩ := h d hd
  obtain ⟨d₂, hnext, hd₂⟩ := h' d₁ hd₁
  refine ⟨d₂, ?_, hd₂⟩
  rw [ExceptT.run_bind, StateT.run_bind, hstep]
  exact hnext

/-- Behind a fault, nothing is done. -/
theorem Reads.bind_error {f : α → Step β} {e : Rule.Error}
    (h : Reads source depth step ts (.error e) rest) :
    Reads source depth (step >>= f) ts (.error e) rest := by
  intro d hd
  obtain ⟨d₁, hstep, hd₁⟩ := h d hd
  refine ⟨d₁, ?_, hd₁⟩
  rw [ExceptT.run_bind, StateT.run_bind, hstep]
  rfl

/-- A pure step behind any step. -/
theorem Reads.map {f : α → β} {outcome : Except Rule.Error α}
    (h : Reads source depth step ts outcome rest) :
    Reads source depth (step >>= fun a => pure (f a)) ts (outcome.map f) rest := by
  cases outcome with
  | ok a => exact h.bind (reads_pure (f a))
  | error e => exact h.bind_error

/-! ## Tokens and places -/

/-- A look gives the next token and leaves it. -/
theorem reads_look : Reads source depth look ts (.ok ts.head?) ts := by
  intro d hd
  refine ⟨{ d with scanner := d.scanner.peek.2 }, ?_, ?_⟩
  · rw [← hd.left_eq, ← Scanner.peek_eq]
    rfl
  · exact ⟨(Scanner.source_peek _).trans hd.source_eq, hd.sound.peek,
      (Scanner.left_peek _).trans hd.left_eq, hd.depth_eq⟩

/-- The next token is given and taken, if there is one. -/
theorem reads_take : Reads source depth take ts (.ok ts.head?) ts.tail := by
  intro d hd
  refine ⟨{ d with scanner := d.scanner.next.2 }, ?_, ?_⟩
  · rw [← hd.left_eq, ← Scanner.next_eq]
    rfl
  · refine ⟨(Scanner.source_next _).trans hd.source_eq, hd.sound.next, ?_, hd.depth_eq⟩
    rw [← hd.left_eq]
    exact hd.sound.left_next

/-- The span of a token of the source names the text of the token. -/
theorem reads_textAt {t : Token} (ht : t ∈ Token.ofSource source) :
    Reads source depth (textAt t.span) ts (.ok t.text) ts := by
  intro d hd
  refine ⟨d, ?_, hd⟩
  have hslice : d.scanner.slice? t.span = some t.text := by
    rw [Scanner.slice?, hd.source_eq, (Token.cuts_ofSource source).slice?_eq ht, Option.map_some,
      String.ofList_toList]
  have hrun : (textAt t.span).run.run d = (d.scanner.slice? t.span).map fun text => (.ok text, d) :=
    rfl
  rw [hrun, hslice, Option.map_some]

/-- The end of the source is told without taking a token. -/
theorem reads_sourceEnd :
    Reads source depth sourceEnd ts (.ok (.atEnd (Text.byteLength source.toList))) ts := by
  intro d hd
  refine ⟨d, ?_, hd⟩
  rw [← hd.source_eq]
  rfl

/-- A token of the wanted kind is taken, and its place is given. -/
theorem reads_expect {t : Token} {kind : Token.Kind} (h : t.kind = kind) (what : String) :
    Reads source depth (expect kind what) (t :: ts) (.ok t.span) ts := by
  refine reads_take.bind ?_
  simp only [List.head?_cons, List.tail_cons, if_pos h]
  exact reads_pure t.span

/-- A token of another kind is refused, and it is taken all the same. -/
theorem reads_expect_of_ne {t : Token} {kind : Token.Kind} (h : t.kind ≠ kind) (what : String) :
    Reads source depth (expect kind what) (t :: ts)
      (.error (.unexpectedToken what t.kind.text t.span)) ts := by
  refine reads_take.bind ?_
  simp only [List.head?_cons, List.tail_cons, if_neg h]
  exact reads_throw _

/-- Behind the last token each kind is missed at the end of the source. -/
theorem reads_expect_nil (kind : Token.Kind) (what : String) :
    Reads source depth (expect kind what) []
      (.error (.unexpectedEnd what (.atEnd (Text.byteLength source.toList)))) [] := by
  refine reads_take.bind ?_
  exact reads_sourceEnd.bind (reads_throw _)

/-! ## Groups -/

/-- The number of open groups is known without taking a token. -/
theorem reads_openGroups : Reads source depth openGroups ts (.ok depth) ts := by
  intro d hd
  refine ⟨d, ?_, hd⟩
  rw [← hd.depth_eq]
  rfl

/-- A group that is opened for a step is closed behind it, also behind a fault. -/
theorem Reads.inGroup {outcome : Except Rule.Error α}
    (h : Reads source (depth + 1) step ts outcome rest) :
    Reads source depth (inGroup step) ts outcome rest := by
  intro d hd
  have hopened : At source (depth + 1) ts { d with depth := d.depth + 1 } :=
    ⟨hd.source_eq, hd.sound, hd.left_eq, congrArg (· + 1) hd.depth_eq⟩
  obtain ⟨d', hstep, hd'⟩ := h _ hopened
  have hdepth : less? d'.depth 1 = some depth := by
    rw [hd'.depth_eq, less?, if_pos (Nat.le_add_left 1 depth), Nat.add_sub_cancel]
  refine ⟨{ d' with depth }, ?_, ⟨hd'.source_eq, hd'.sound, hd'.left_eq, rfl⟩⟩
  have hrun : (Descent.inGroup step).run.run d =
      (step.run.run { d with depth := d.depth + 1 }).bind fun result =>
        (less? result.2.depth 1).bind fun depth => some (result.1, { result.2 with depth }) := rfl
  rw [hrun, hstep, Option.bind_some, hdepth, Option.bind_some]

/-! ## Loops -/

/-- The rounds of a step that is repeated, which starts with `a` in front of `ts`: all of
them but the last take tokens. -/
inductive Loops (source : String) (depth : Nat) (step : α → Step (α ⊕ β)) :
    α → List Token → Except Rule.Error β → List Token → Prop
  | again {a a' : α} {ts rest rest' : List Token} {outcome : Except Rule.Error β}
      (h : Reads source depth (step a) ts (.ok (.inl a')) rest) (hlt : rest.length < ts.length)
      (h' : Loops source depth step a' rest outcome rest') :
      Loops source depth step a ts outcome rest'
  | done {a : α} {ts rest : List Token} {b : β}
      (h : Reads source depth (step a) ts (.ok (.inr b)) rest) :
      Loops source depth step a ts (.ok b) rest
  | fault {a : α} {ts rest : List Token} {e : Rule.Error}
      (h : Reads source depth (step a) ts (.error e) rest) :
      Loops source depth step a ts (.error e) rest

variable {repeated : α → Step (α ⊕ β)} {a : α} {outcome : Except Rule.Error β}

/-- Whatever the bound on the rounds is, a loop comes to its end if the bound is above the
number of tokens. -/
theorem Loops.reads_untilDone (h : Loops source depth repeated a ts outcome rest) {rounds : Nat}
    (hrounds : ts.length < rounds) :
    Reads source depth (untilDone repeated rounds a) ts outcome rest := by
  induction h generalizing rounds with
  | again h hlt h' ih =>
    obtain ⟨rounds, rfl⟩ : ∃ n, rounds = n + 1 := ⟨rounds - 1, by omega⟩
    exact h.bind (ih (by omega))
  | done h =>
    obtain ⟨rounds, rfl⟩ : ∃ n, rounds = n + 1 := ⟨rounds - 1, by omega⟩
    exact h.bind (reads_pure _)
  | fault h =>
    obtain ⟨rounds, rfl⟩ : ∃ n, rounds = n + 1 := ⟨rounds - 1, by omega⟩
    exact h.bind_error

/-- A loop whose rounds take tokens comes to its end. -/
theorem Loops.reads (h : Loops source depth repeated a ts outcome rest) :
    Reads source depth (repeatUntilDone repeated a) ts outcome rest := by
  intro d hd
  have hle := d.scanner.length_left_le
  rw [hd.left_eq] at hle
  exact h.reads_untilDone (by omega) d hd

end Railroad.Descent
