import Railroad.Proofs.Descent.Steps
import Railroad.Proofs.Reading

/-!
# Steps that follow the machine

While a descent reads an alternation, the machine that reads a rule token by token moves
inside of one stack of open groups.  A step of the descent follows the machine if both read
the same tokens, and either find the same fault or come to an end with something in common.

Main definitions:

- Definitions {lit}`Descent.Leads` and {lit}`Descent.Fails`: what the machine does inside of
  any groups.
- Definition {lit}`Descent.Follows`: a step does what the machine does.

Main results:

- Theorem {lit}`Descent.Follows.bind`: steps in a row follow the machine.
- Theorem {lit}`Descent.follows_repeatUntilDone`: so does a step that is repeated.
-/

namespace Railroad.Descent

/-! ## The machine -/

/-- Inside of any `depth` groups, the machine comes from `before`, in front of `ts`, to
`after`, in front of `rest`. -/
def Leads (depth : Nat) (before : Alternation) (ts : List Token) (after : Alternation)
    (rest : List Token) : Prop :=
  ∀ (size : Nat) (name : String) (groups : List OpenGroup), groups.length = depth →
    (Reading.body name ⟨groups, before⟩).run size ts =
      (Reading.body name ⟨groups, after⟩).run size rest

/-- Inside of any `depth` groups, the machine finds a fault, and then `rest` has not been
read. -/
def Fails (depth : Nat) (before : Alternation) (ts : List Token) (e : Rule.Error)
    (rest : List Token) : Prop :=
  ∀ (size : Nat) (name : String) (groups : List OpenGroup), groups.length = depth →
    (Reading.body name ⟨groups, before⟩).run size ts = (.error e, rest)

variable {source : String} {depth : Nat} {before between after : Alternation} {t : Token}
  {ts rest rest' : List Token} {e : Rule.Error}

theorem leads_refl (before : Alternation) (ts : List Token) : Leads depth before ts before ts :=
  fun _ _ _ _ => rfl

/-- Ways of the machine can be put together. -/
theorem Leads.trans (h : Leads depth before ts between rest)
    (h' : Leads depth between rest after rest') : Leads depth before ts after rest' :=
  fun size name groups hgroups =>
    (h size name groups hgroups).trans (h' size name groups hgroups)

/-- A fault behind some way of the machine is a fault from where it started. -/
theorem Leads.fails (h : Leads depth before ts between rest)
    (h' : Fails depth between rest e rest') : Fails depth before ts e rest' :=
  fun size name groups hgroups =>
    (h size name groups hgroups).trans (h' size name groups hgroups)

/-- A token that has an effect inside of the innermost alternation. -/
theorem leads_of_step (hclose : t.kind ≠ .closeParen) (hend : t.kind ≠ .semicolon)
    (h : ∀ groups : List OpenGroup, groups.length = depth →
      Body.step ⟨groups, before⟩ t = .ok ⟨groups, after⟩) :
    Leads depth before (t :: ts) after ts :=
  fun _ _ groups hgroups =>
    Reading.run_of_step_eq_ok (Reading.step_of_body_step_eq_ok (h groups hgroups) hclose hend) ts

/-- A token that is refused inside of the innermost alternation. -/
theorem fails_of_step (hclose : t.kind ≠ .closeParen) (hend : t.kind ≠ .semicolon)
    (h : ∀ groups : List OpenGroup, groups.length = depth →
      Body.step ⟨groups, before⟩ t = .error e) :
    Fails depth before (t :: ts) e ts :=
  fun _ _ groups hgroups =>
    Reading.run_of_step_eq_error
      (Reading.step_of_body_step_eq_error (h groups hgroups) hclose hend) ts

/-! ## Following -/

variable {α β : Type}

/-- A step does what the machine does, where `before` has been read of an alternation inside
of `depth` groups.  The machine stands in front of `ts` and the descent in front of `us`,
which lacks tokens that only the descent has taken.  If there is no fault, both come to the
same tokens, and `post` says what the value of the step has to do with them and with what
has then been read. -/
inductive Follows (source : String) (depth : Nat) (step : Step α)
    (post : α → Alternation → List Token → Prop) (before : Alternation) (ts us : List Token) :
    Prop
  | value {a : α} {after : Alternation} {rest : List Token}
      (hreads : Reads source depth step us (.ok a) rest)
      (hleads : Leads depth before ts after rest) (hsuffix : rest <:+ ts)
      (hpost : post a after rest) : Follows source depth step post before ts us
  | fault {e : Rule.Error} {rest : List Token}
      (hreads : Reads source depth step us (.error e) rest)
      (hfails : Fails depth before ts e rest) : Follows source depth step post before ts us

variable {step : Step α} {post : α → Alternation → List Token → Prop}
  {post' : β → Alternation → List Token → Prop} {us us' : List Token}

/-- A known value follows the machine as it stands. -/
theorem follows_pure {a : α} (hpost : post a before ts) :
    Follows source depth (pure a) post before ts ts :=
  .value (reads_pure a) (leads_refl before ts) (List.suffix_refl ts) hpost

/-- A value behind a token that only the descent has taken so far. -/
theorem follows_pure_of_leads {a : α} (hleads : Leads depth before (t :: ts) after ts)
    (hpost : post a after ts) : Follows source depth (pure a) post before (t :: ts) ts :=
  .value (reads_pure a) hleads (List.suffix_cons t ts) hpost

/-- A fault follows the machine if that has found the same. -/
theorem follows_throw (hfails : Fails depth before ts e us) :
    Follows source depth (throw e) post before ts us :=
  .fault (reads_throw e) hfails

/-- What holds behind a step may be weakened. -/
theorem Follows.mono {post' : α → Alternation → List Token → Prop}
    (h : Follows source depth step post before ts us)
    (hpost : ∀ a after rest, rest <:+ ts → post a after rest → post' a after rest) :
    Follows source depth step post' before ts us := by
  cases h with
  | value hreads hleads hsuffix h => exact .value hreads hleads hsuffix (hpost _ _ _ hsuffix h)
  | fault hreads hfails => exact .fault hreads hfails

/-- First a step that only the descent does. -/
theorem Follows.behind {f : α → Step β} {a : α} (hreads : Reads source depth step us (.ok a) us')
    (h : Follows source depth (f a) post' before ts us') :
    Follows source depth (step >>= f) post' before ts us := by
  cases h with
  | value hreads' hleads hsuffix hpost => exact .value (hreads.bind hreads') hleads hsuffix hpost
  | fault hreads' hfails => exact .fault (hreads.bind hreads') hfails

/-- Steps in a row follow the machine, if each of them does where the one before it ends. -/
theorem Follows.bind {f : α → Step β} (h : Follows source depth step post before ts us)
    (h' : ∀ a after rest, rest <:+ ts → post a after rest →
      Follows source depth (f a) post' after rest rest) :
    Follows source depth (step >>= f) post' before ts us := by
  cases h with
  | value hreads hleads hsuffix hpost =>
    cases h' _ _ _ hsuffix hpost with
    | value hreads' hleads' hsuffix' hpost' =>
      exact .value (hreads.bind hreads') (hleads.trans hleads') (hsuffix'.trans hsuffix) hpost'
    | fault hreads' hfails => exact .fault (hreads.bind hreads') (hleads.fails hfails)
  | fault hreads hfails => exact .fault hreads.bind_error hfails

/-- A step behind a token that has been taken, and that has an effect inside of the innermost
alternation. -/
theorem Follows.advance (hleads : Leads depth before (t :: ts) between ts)
    (h : Follows source depth step post between ts us) :
    Follows source depth step post before (t :: ts) us := by
  cases h with
  | value hreads hleads' hsuffix hpost =>
    exact .value hreads (hleads.trans hleads') (hsuffix.trans (List.suffix_cons t ts)) hpost
  | fault hreads hfails => exact .fault hreads (hleads.fails hfails)

/-! ## Loops -/

/-- What holds behind a round of a step that is repeated: either the invariant of the loop,
and a token has been taken, or what should hold behind the loop. -/
def BehindRound (ts : List Token) (inv : α → Alternation → List Token → Prop)
    (post' : β → Alternation → List Token → Prop) :
    α ⊕ β → Alternation → List Token → Prop
  | .inl a, after, rest => rest.length < ts.length ∧ inv a after rest
  | .inr b, after, rest => post' b after rest

/-- What the rounds of a loop do, if every round follows the machine. -/
theorem loops_of_follows {repeated : α → Step (α ⊕ β)} {inv : α → Alternation → List Token → Prop}
    (hround : ∀ a before ts, ts <:+ Token.ofSource source → inv a before ts →
      Follows source depth (repeated a) (BehindRound ts inv post') before ts ts)
    (n : Nat) (a : α) (before : Alternation) (ts : List Token) (hn : ts.length = n)
    (hts : ts <:+ Token.ofSource source) (h : inv a before ts) :
    (∃ b after rest, Loops source depth repeated a ts (.ok b) rest ∧
        Leads depth before ts after rest ∧ rest <:+ ts ∧ post' b after rest) ∨
      ∃ e rest, Loops source depth repeated a ts (.error e) rest ∧
        Fails depth before ts e rest := by
  -- On the number of tokens that are left: a round says only that it takes some of them.
  induction n using Nat.strong_induction_on generalizing a before ts with
  | _ n ih =>
    cases hround a before ts hts h with
    | fault hreads hfails => exact .inr ⟨_, _, .fault hreads, hfails⟩
    | @value result after rest hreads hleads hsuffix hpost =>
      cases result with
      | inr b => exact .inl ⟨b, after, rest, .done hreads, hleads, hsuffix, hpost⟩
      | inl a' =>
        obtain ⟨hlt, hinv⟩ := hpost
        rcases ih rest.length (hn ▸ hlt) a' after rest rfl (hsuffix.trans hts) hinv with
          ⟨b, after', rest', hloops, hleads', hsuffix', hpost'⟩ | ⟨e, rest', hloops, hfails⟩
        · exact .inl ⟨b, after', rest', .again hreads hlt hloops, hleads.trans hleads',
            hsuffix'.trans hsuffix, hpost'⟩
        · exact .inr ⟨e, rest', .again hreads hlt hloops, hleads.fails hfails⟩

/-- A loop follows the machine if every round does, and every round but the last takes a
token. -/
theorem follows_repeatUntilDone {repeated : α → Step (α ⊕ β)}
    (inv : α → Alternation → List Token → Prop)
    (hround : ∀ a before ts, ts <:+ Token.ofSource source → inv a before ts →
      Follows source depth (repeated a) (BehindRound ts inv post') before ts ts)
    {a : α} (hts : ts <:+ Token.ofSource source) (h : inv a before ts) :
    Follows source depth (repeatUntilDone repeated a) post' before ts ts := by
  rcases loops_of_follows hround ts.length a before ts rfl hts h with
    ⟨b, after, rest, hloops, hleads, hsuffix, hpost⟩ | ⟨e, rest, hloops, hfails⟩
  · exact .value hloops.reads hleads hsuffix hpost
  · exact .fault hloops.reads hfails

end Railroad.Descent
