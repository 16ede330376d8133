/-!
# Runs of characters

The characters in front of a text that have some property, and what follows them.

Main results:

- Theorem {lit}`takeWhile_dropWhile_append`: a run and what follows it, when the run
  stops there.
- Theorem {lit}`eq_of_append_cons_eq`: what stands in front of a mark, and behind it.
-/

namespace Railroad

variable {α : Type}

/-- A run of characters and what follows it, when the run stops there. -/
theorem takeWhile_dropWhile_append {p : α → Bool} {inner rest : List α}
    (hinner : ∀ c ∈ inner, p c = true) (hrest : ∀ c, rest.head? = some c → p c = false) :
    (inner ++ rest).takeWhile p = inner ∧ (inner ++ rest).dropWhile p = rest := by
  rw [List.takeWhile_append_of_pos hinner, List.dropWhile_append_of_pos hinner]
  cases rest with
  | nil => simp
  | cons c rest => simp [hrest c rfl]

/-- A list determines what stands in front of the first of some element, and behind it. -/
theorem eq_of_append_cons_eq {a : α} {s s' t t' : List α} (hs : a ∉ s) (hs' : a ∉ s')
    (h : s ++ a :: t = s' ++ a :: t') : s = s' ∧ t = t' := by
  induction s generalizing s' with
  | nil =>
    cases s' with
    | nil => simpa using h
    | cons b s' =>
      have hhead : a = b := (List.cons.inj h).1
      simp [hhead] at hs'
  | cons b s ih =>
    cases s' with
    | nil =>
      have hhead : b = a := (List.cons.inj h).1
      simp [hhead] at hs
    | cons c s' =>
      rcases List.cons.inj h with ⟨rfl, htail⟩
      rcases ih (List.not_mem_of_not_mem_cons hs) (List.not_mem_of_not_mem_cons hs') htail
        with ⟨rfl, rfl⟩
      exact ⟨rfl, rfl⟩

end Railroad
