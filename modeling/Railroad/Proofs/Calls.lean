import Railroad.Proofs.Descent.Simulation

/-!
# Calls one after the other

A parser that is asked again and again goes on with the tokens that it has not read.  Every
call that ends with a rule or a fault reads at least one token, a rule takes all that are
left, and nothing comes back behind the last token.  So the calls that have an outcome are
no more than there are tokens.

Main definitions:

- Definition {lit}`Consumes`: what a call does to the tokens that are left.

Main results:

- Theorem {lit}`Reading.consumes_run`: how the outcome of a run and its tokens belong
  together.
- Theorem {lit}`Rule.Parser.exists_outcomes_eq`: faults, at most one rule, and then nothing.
- Theorem {lit}`Descent.rules_shape`: the same for reading by descent.
-/

namespace Railroad

/-- What a call does to the tokens: a fault takes some of them, a rule takes them all, and
where there are none, there is no rule. -/
def Consumes (outcome : Except Rule.Error (Option Rule)) (ts rest : List Token) : Prop :=
  match outcome with
  | .error _ => ∃ read, read ≠ [] ∧ ts = read ++ rest
  | .ok (some _) => ts ≠ [] ∧ rest = []
  | .ok none => ts = [] ∧ rest = []

/-! ## Runs -/

namespace Reading

variable {size : Nat} {r r' : Reading} {t : Token} {ts : List Token}

/-- The tokens that a run has not read are the last of its tokens. -/
theorem run_suffix (r : Reading) (ts : List Token) : (r.run size ts).2 <:+ ts := by
  induction ts generalizing r with
  | nil => exact List.suffix_refl []
  | cons t ts ih =>
    cases hstep : r.step t with
    | ok r' =>
      rw [run_of_step_eq_ok hstep]
      exact (ih r').trans (List.suffix_cons t ts)
    | error refusal =>
      rw [run_of_step_eq_error hstep]
      cases refusal.tokenRead with
      | true => exact List.suffix_cons t ts
      | false => exact List.suffix_refl _

/-- A run without a fault reads all of its tokens. -/
theorem run_rest_eq_nil {found : Option Rule} (h : (r.run size ts).1 = .ok found) :
    (r.run size ts).2 = [] := by
  induction ts generalizing r with
  | nil => rfl
  | cons t ts ih =>
    cases hstep : r.step t with
    | ok r' =>
      rw [run_of_step_eq_ok hstep] at h ⊢
      exact ih h
    | error refusal =>
      rw [run_of_step_eq_error hstep] at h
      cases h

/-- No token leads back to the start. -/
theorem ne_start_of_step_eq_ok (h : r.step t = .ok r') : r' ≠ .start := by
  rintro rfl
  cases r with
  | start =>
    rw [step] at h
    split at h <;> cases h
  | named name =>
    rw [step] at h
    split at h <;> cases h
  | body name b => cases move_of_step_eq_ok h
  | closed name root => cases h

/-- Behind the start there is a rule or a fault. -/
theorem run_ne_ok_none (hr : r ≠ .start) : (r.run size ts).1 ≠ .ok none := by
  induction ts generalizing r with
  | nil =>
    intro h
    rw [run] at h
    cases r with
    | start => contradiction
    | named name => cases h
    | body name b =>
      simp only [finish] at h
      cases htree : b.current.tree with
      | error e =>
        rw [htree] at h
        cases h
      | ok root =>
        rw [htree, ok_bind] at h
        split at h <;> cases h
    | closed name root => cases h
  | cons t ts ih =>
    cases hstep : r.step t with
    | ok r' =>
      rw [run_of_step_eq_ok hstep]
      exact ih (ne_start_of_step_eq_ok hstep)
    | error refusal =>
      rw [run_of_step_eq_error hstep]
      intro h
      cases h

/-- The first token of a rule is read, also if it is refused. -/
theorem run_start_suffix (t : Token) (ts : List Token) : (start.run size (t :: ts)).2 <:+ ts := by
  by_cases hkind : t.kind = .identifier
  · rw [run_of_step_eq_ok (step_start hkind)]
    exact run_suffix _ ts
  · rw [run_of_step_eq_error (step_start_of_ne hkind)]
    exact List.suffix_refl ts

/-- Where there is a token, there is a rule or a fault. -/
theorem run_start_ne_ok_none (t : Token) (ts : List Token) :
    (start.run size (t :: ts)).1 ≠ .ok none := by
  cases hstep : start.step t with
  | ok r' =>
    rw [run_of_step_eq_ok hstep]
    exact run_ne_ok_none (ne_start_of_step_eq_ok hstep)
  | error refusal =>
    rw [run_of_step_eq_error hstep]
    intro h
    cases h

/-- How the outcome of reading a rule and the tokens that are left belong together. -/
theorem consumes_run (size : Nat) (ts : List Token) :
    Consumes (start.run size ts).1 ts (start.run size ts).2 := by
  cases ts with
  | nil => exact ⟨rfl, rfl⟩
  | cons t ts =>
    cases houtcome : (start.run size (t :: ts)).1 with
    | error e =>
      obtain ⟨read, hread⟩ := @run_start_suffix size t ts
      exact ⟨t :: read, List.cons_ne_nil t read, by rw [List.cons_append, hread]⟩
    | ok found =>
      cases found with
      | none => exact absurd houtcome (run_start_ne_ok_none t ts)
      | some rule => exact ⟨List.cons_ne_nil t ts, run_rest_eq_nil houtcome⟩

end Reading

/-! ## Calls -/

namespace Rule.Parser

/-- Without tokens no call gives a rule or a fault. -/
theorem outcomes_of_tokens_eq_nil {p : Parser} (h : p.tokens = []) (n : Nat) :
    p.outcomes n = List.replicate n (.ok none) := by
  induction n generalizing p with
  | zero => rfl
  | succ n ih =>
    have hnext : p.next = (.ok none, { p with tokens := [] }) := by
      rw [next, h]
      rfl
    rw [outcomes, hnext, ih rfl, List.replicate_succ]

/-- A parser finds faults, then at most one rule, and then nothing.  There are no more faults
and rules than tokens. -/
theorem exists_outcomes_eq (p : Parser) :
    ∃ (errors : List Rule.Error) (found : Option Rule),
      errors.length + found.toList.length ≤ p.tokens.length ∧
        ∀ m, p.outcomes (errors.length + found.toList.length + m) =
          errors.map .error ++ found.toList.map (fun rule => .ok (some rule)) ++
            List.replicate m (.ok none) := by
  -- A call that finds a fault has read some token, so that fewer are left for the other calls.
  induction hn : p.tokens.length using Nat.strong_induction_on generalizing p with
  | _ n ih =>
    have hconsumes : Consumes p.next.1 p.tokens p.next.2.tokens :=
      Reading.consumes_run p.size p.tokens
    cases houtcome : p.next.1 with
    | error e =>
      rw [houtcome] at hconsumes
      obtain ⟨read, hread, htokens⟩ := hconsumes
      have hlength : p.next.2.tokens.length < n := by
        have hpos := List.length_pos_iff.mpr hread
        rw [← hn, htokens, List.length_append]
        omega
      obtain ⟨errors, found, hle, hshape⟩ := ih _ hlength p.next.2 rfl
      refine ⟨e :: errors, found, ?_, ?_⟩
      · rw [List.length_cons]
        omega
      · intro m
        rw [List.length_cons, Nat.add_right_comm errors.length 1, Nat.add_right_comm _ 1 m,
          outcomes, houtcome, hshape]
        rfl
    | ok found =>
      cases found with
      | none =>
        rw [houtcome] at hconsumes
        refine ⟨[], none, Nat.zero_le _, ?_⟩
        intro m
        rw [outcomes_of_tokens_eq_nil hconsumes.1]
        simp
      | some rule =>
        rw [houtcome] at hconsumes
        refine ⟨[], some rule, ?_, ?_⟩
        · have hpos := List.length_pos_iff.mpr hconsumes.1
          simp only [List.length_nil, Option.toList_some, List.length_singleton]
          omega
        · intro m
          rw [List.length_nil, Option.toList_some, List.length_singleton, Nat.zero_add,
            Nat.add_comm, outcomes, houtcome, outcomes_of_tokens_eq_nil hconsumes.2]
          rfl

end Rule.Parser

namespace Descent

/-- Asked again and again, a descent ends with faults, then with at most one rule, and then
with no rule for ever.  There are no more faults and rules than tokens in the source.  A
call that ends with a fault takes tokens, one that ends with a rule takes all that are left,
and only where none are left there is no rule. -/
theorem rules_shape (source : String) :
    (∃ (errors : List Rule.Error) (found : Option Rule),
      errors.length + found.toList.length ≤ (Token.ofSource source).length ∧
        ∀ m, ∃ d, rules (errors.length + found.toList.length + m) (ofSource source) =
          some (errors.map .error ++ found.toList.map (fun rule => .ok (some rule)) ++
            List.replicate m (.ok none), d)) ∧
      ∀ n, ∃ outcomes d outcome d', rules n (ofSource source) = some (outcomes, d) ∧
        rule.run.run d = some (outcome, d') ∧ Consumes outcome d.scanner.left d'.scanner.left := by
  constructor
  · obtain ⟨errors, found, hle, hshape⟩ := (Rule.Parser.ofSource source).exists_outcomes_eq
    refine ⟨errors, found, hle, ?_⟩
    intro m
    obtain ⟨d, hrules, -⟩ :=
      exists_rules_ofSource_eq source (errors.length + found.toList.length + m)
    rw [hshape] at hrules
    exact ⟨d, hrules⟩
  · intro n
    obtain ⟨d, hrules, hd⟩ := exists_rules_ofSource_eq source n
    obtain ⟨d', hrule, hd'⟩ := reads_rule hd.suffix d hd
    refine ⟨_, d, _, d', hrules, hrule, ?_⟩
    rw [hd.left_eq, hd'.left_eq]
    exact Reading.consumes_run _ _

end Descent

end Railroad
