/-!
# Computations that may fail

A computation in steps fails with the first of its steps that does.

Main results:

- Theorem {lit}`bind_eq_ok_iff`: a computation in two steps succeeds if both do.
- Theorem {lit}`mapM_eq_ite`: so does a computation on each of some values.
- Theorem {lit}`forM_eq_error`: a check on each of some values fails with the first one.
-/

namespace Railroad

variable {ε α β γ : Type}

@[simp] theorem ok_bind (a : α) (f : α → Except ε β) : (Except.ok a >>= f) = f a := rfl

@[simp] theorem error_bind (e : ε) (f : α → Except ε β) :
    ((Except.error e : Except ε α) >>= f) = .error e := rfl

/-- A computation in two steps succeeds if both do. -/
theorem bind_eq_ok_iff {x : Except ε α} {f : α → Except ε β} {b : β} :
    (x >>= f) = .ok b ↔ ∃ a, x = .ok a ∧ f a = .ok b := by
  cases x with
  | ok a => simp
  | error e => simp

/-- What is seen of a computation in two steps, if `seen` is what is seen of the first
step and the second step shows the same for all values that look alike. -/
theorem map_bind_eq {δ : Type} {x : Except ε α} {seen : α → γ} {f : α → Except ε β}
    {view : β → δ} {g : γ → Except ε δ} (h : ∀ a, (f a).map view = g (seen a)) :
    (x >>= f).map view = x.map seen >>= g := by
  cases x with
  | ok a => exact h a
  | error e => rfl

/-- A second step that cannot fail only changes what is seen. -/
theorem map_bind_eq_map {x : Except ε α} {seen : α → γ} {f : α → Except ε β} {view : β → γ}
    (h : ∀ a, (f a).map view = .ok (seen a)) : (x >>= f).map view = x.map seen := by
  cases x with
  | ok a => exact h a
  | error e => rfl

@[simp] theorem mapError_ok {δ : Type} (a : α) (g : ε → δ) :
    (Except.ok a : Except ε α).mapError g = .ok a := rfl

@[simp] theorem mapError_error {δ : Type} (e : ε) (g : ε → δ) :
    (Except.error e : Except ε α).mapError g = .error (g e) := rfl

/-- Errors are changed in both of two steps. -/
theorem mapError_bind {δ : Type} (x : Except ε α) (f : α → Except ε β) (g : ε → δ) :
    (x >>= f).mapError g = x.mapError g >>= fun a => (f a).mapError g := by
  cases x <;> rfl

/-- The values are kept if they pass a test, all of them, and else the test fails. -/
theorem mapM_eq_ite {p : α → Prop} [DecidablePred p] {e : ε} (as : List α) :
    as.mapM (fun a => if p a then Except.ok a else .error e) =
      if ∀ a ∈ as, p a then .ok as else .error e := by
  induction as with
  | nil => rfl
  | cons a as ih =>
    rw [List.mapM_cons, ih]
    by_cases ha : p a
    · by_cases has : ∀ b ∈ as, p b
      · rw [if_pos ha, if_pos has, if_pos (List.forall_mem_cons.mpr ⟨ha, has⟩)]
        rfl
      · rw [if_pos ha, if_neg has, if_neg fun h => has (List.forall_mem_cons.mp h).2]
        rfl
    · rw [if_neg ha, if_neg fun h => ha (List.forall_mem_cons.mp h).1]
      rfl

/-- All values pass a check if each of them does. -/
theorem forM_eq_ok_iff {check : α → Except ε Unit} {as : List α} :
    forM as check = .ok () ↔ ∀ a ∈ as, check a = .ok () := by
  induction as with
  | nil => exact ⟨fun _ a hmem => absurd hmem List.not_mem_nil, fun _ => rfl⟩
  | cons a as ih =>
    rw [List.forM_cons, List.forall_mem_cons, ← ih]
    cases check a with
    | ok _ => simp
    | error e => simp

/-- A check on each of some values fails with the first of them that does not pass it. -/
theorem forM_eq_error {check : α → Except ε Unit} {as : List α} {e : ε}
    (h : forM as check = .error e) :
    ∃ before a after, as = before ++ a :: after ∧ (∀ b ∈ before, check b = .ok ()) ∧
      check a = .error e := by
  induction as with
  | nil => cases h
  | cons a as ih =>
    rw [List.forM_cons] at h
    cases hcheck : check a with
    | error e' =>
      rw [hcheck] at h
      cases h
      exact ⟨[], a, as, rfl, by simp, hcheck⟩
    | ok _ =>
      rw [hcheck] at h
      obtain ⟨before, b, after, rfl, hbefore, hb⟩ := ih h
      exact ⟨a :: before, b, after, rfl, List.forall_mem_cons.mpr ⟨hcheck, hbefore⟩, hb⟩

end Railroad
