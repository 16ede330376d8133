import Railroad.Json.Decoding
import Railroad.Proofs.Failing
import Railroad.Proofs.Runs

/-!
# Outcomes of readers

A reader gives the text behind a value together with a proof that it is shorter.
Seen from outside there are only the value and the text.  This module says what
the outcome of each reader is when the next character is known.

Main definitions:

- Definition {lit}`Json.outcome`: the value and the text behind it, or the problem.

Main results:

- Theorems {lit}`Json.outcome_elements_next` and {lit}`Json.outcome_members_next`: one
  more element of a list, and one more member of an object.
-/

namespace Railroad.Json

variable {α β σ : Type}

/-- What a reader makes of a text: the value and the text behind it, or the problem. -/
def outcome (item : Reader α) (s : List Char) : Except Error (α × List Char) :=
  (item s).map fun p => (p.1, p.2.1)

/-- Behind an outcome there is a rest with the same text. -/
theorem exists_of_outcome_eq_ok {item : Reader α} {s t : List Char} {a : α}
    (h : outcome item s = .ok (a, t)) : ∃ r : Rest s, item s = .ok (a, r) ∧ r.1 = t := by
  unfold outcome at h
  cases hitem : item s with
  | error e =>
    rw [hitem] at h
    cases h
  | ok p =>
    rw [hitem] at h
    cases h
    exact ⟨p.2, rfl, rfl⟩

/-! ## The next character -/

/-- Blanks in front of a character that is none are passed over. -/
theorem dropWhile_blanks_append {blanks : List Char} {c : Char}
    (hblanks : ∀ d ∈ blanks, isBlank d = true) (hc : isBlank c = false) (t : List Char) :
    (blanks ++ c :: t).dropWhile isBlank = c :: t :=
  (takeWhile_dropWhile_append hblanks (by simpa using hc)).2

/-- The next character is the first that is not blank. -/
theorem exists_next?_eq {s t : List Char} {c : Char} (h : s.dropWhile isBlank = c :: t) :
    ∃ r : Rest s, next? s = some (c, r) ∧ r.1 = t := by
  unfold next?
  split
  · rename_i hnil
    rw [h] at hnil
    cases hnil
  · rename_i d r hcons
    have heq : c :: t = d :: r := h.symm.trans hcons
    cases heq
    exact ⟨_, rfl, rfl⟩

/-- A mark is found behind blanks. -/
theorem exists_mark_eq {s t : List Char} {c : Char} (h : s.dropWhile isBlank = c :: t) :
    ∃ r : Rest s, mark c s = .ok r ∧ r.1 = t := by
  rcases exists_next?_eq h with ⟨r, hnext, hr⟩
  refine ⟨r, ?_, hr⟩
  rw [mark, hnext]
  exact if_pos rfl

/-! ## Values -/

/-- A string begins with a quote. -/
theorem outcome_string {s t : List Char} (h : s.dropWhile isBlank = '"' :: t) :
    outcome string s = (do
      let (cs, r) ← outcome stringBody t
      return (String.ofList cs, r)) := by
  rcases exists_next?_eq h with ⟨r, hnext, rfl⟩
  rw [outcome, string, hnext]
  dsimp only
  rw [if_pos rfl]
  exact map_bind_eq fun _ => rfl

/-- A kind is a string that names it. -/
theorem outcome_kind {levels : Nat} {s t : List Char} (h : s.dropWhile isBlank = '"' :: t) :
    outcome (kind levels) s = (do
      let (cs, r) ← outcome stringBody t
      return (← kindOf (String.ofList cs), r)) := by
  rcases exists_next?_eq h with ⟨r, hnext, rfl⟩
  rw [outcome, kind, hnext]
  dsimp only
  rw [if_pos rfl]
  refine map_bind_eq fun p => ?_
  dsimp only
  cases kindOf (String.ofList p.1) <;> rfl

/-- A natural number begins with a digit and has neither a fraction nor a power, and it fits
into 64 bits. -/
theorem outcome_natural {s t : List Char} {c : Char} (h : s.dropWhile isBlank = c :: t)
    (hc : c.isDigit = true) :
    outcome natural s = (do
      let (numeral, r) ← outcome (Numeral.unsigned false) (c :: t)
      match ← numeral.value with
      | .natural n => return (n, r)
      | .negative n => throw (.data (.outOfRange n .size))
      | .real x => throw (.data (.wrongType (NumberValue.real x).found .size))) := by
  have hminus : c ≠ '-' := by
    rintro rfl
    cases hc
  rcases exists_next?_eq h with ⟨r, hnext, rfl⟩
  rw [outcome, natural, hnext]
  dsimp only
  rw [if_pos (.inr hc), Numeral.scan, if_neg hminus]
  refine map_bind_eq fun p => ?_
  dsimp only
  cases p.1.value with
  | error e => rfl
  | ok x => cases x <;> rfl

/-- The value of a member stands behind a colon. -/
theorem outcome_valueOf {item : Reader α} {s t : List Char} (h : s.dropWhile isBlank = ':' :: t) :
    outcome (valueOf item) s = outcome item t := by
  rcases exists_mark_eq h with ⟨r, hmark, rfl⟩
  rw [outcome, valueOf, hmark, ok_bind]
  exact map_bind_eq_map fun _ => rfl

/-! ## Lists -/

/-- Where no more levels are allowed, the bracket of a list is as far as one gets. -/
theorem outcome_listOf_none {s t : List Char} (h : s.dropWhile isBlank = '[' :: t) :
    outcome (listOf (none : Option (Reader α))) s = .error .malformed := by
  rcases exists_next?_eq h with ⟨r, hnext, -⟩
  rw [outcome, listOf, hnext]
  rfl

/-- The elements of a list stand behind its bracket. -/
theorem outcome_listOf {item : Reader α} {s t : List Char} (h : s.dropWhile isBlank = '[' :: t) :
    outcome (listOf (some item)) s = outcome (elements item true) t := by
  rcases exists_next?_eq h with ⟨r, hnext, rfl⟩
  rw [outcome, listOf, hnext]
  dsimp only
  rw [if_pos rfl]
  exact map_bind_eq_map fun _ => rfl

/-- A closing bracket ends the elements. -/
theorem outcome_elements_closing {item : Reader α} {first : Bool} {s t : List Char}
    (h : s.dropWhile isBlank = ']' :: t) : outcome (elements item first) s = .ok ([], t) := by
  rcases exists_next?_eq h with ⟨r, hnext, rfl⟩
  rw [outcome, elements, element, hnext]
  rfl

/-- Another element of a list. -/
theorem outcome_elements_next {item : Reader α} {s t u : List Char} {c : Char}
    (h : s.dropWhile isBlank = ',' :: t) (ht : t.dropWhile isBlank = c :: u) (hc : c ≠ ']') :
    outcome (elements item false) s = (do
      let (a, r) ← outcome item t
      let (as, r') ← outcome (elements item false) r
      return (a :: as, r')) := by
  rcases exists_next?_eq h with ⟨r, hnext, rfl⟩
  rcases exists_next?_eq ht with ⟨r', hnext', -⟩
  rw [outcome, elements, element, hnext]
  dsimp only
  rw [if_neg (by decide), elementStart, hnext']
  dsimp only
  rw [if_neg (by decide), if_pos rfl, if_neg hc, ok_bind, bind_assoc]
  refine map_bind_eq fun p => ?_
  rw [pure_bind]
  exact map_bind_eq fun _ => rfl

/-- The first element of a list is read like one behind a comma. -/
theorem outcome_elements_first {item : Reader α} {s t : List Char} {c : Char}
    (h : s.dropWhile isBlank = c :: t) (hc : c ≠ ']') :
    outcome (elements item true) s = outcome (elements item false) (',' :: s) := by
  rw [outcome_elements_next rfl h hc]
  rcases exists_next?_eq h with ⟨r, hnext, rfl⟩
  rw [outcome, elements, element, hnext]
  dsimp only
  rw [if_neg hc, elementStart, if_pos rfl, ok_bind, bind_assoc]
  refine map_bind_eq fun p => ?_
  rw [pure_bind]
  exact map_bind_eq fun _ => rfl

/-! ## Objects -/

/-- A closing brace ends the members, and what was gathered is the outcome. -/
theorem outcome_members_closing {field : String → σ → Reader σ} {first : Bool} {gathered : σ}
    {s t : List Char} (h : s.dropWhile isBlank = '\x7d' :: t) :
    outcome (members field first gathered) s = .ok (gathered, t) := by
  rcases exists_next?_eq h with ⟨r, hnext, rfl⟩
  rw [outcome, members, hnext]
  rfl

/-- Another member of an object. -/
theorem outcome_members_next {field : String → σ → Reader σ} {gathered : σ} {s t u : List Char}
    (h : s.dropWhile isBlank = ',' :: t) (ht : t.dropWhile isBlank = '"' :: u) :
    outcome (members field false gathered) s = (do
      let (name, r) ← outcome stringBody u
      let (gathered', r') ← outcome (field (String.ofList name) gathered) r
      outcome (members field false gathered') r') := by
  rcases exists_next?_eq h with ⟨r, hnext, rfl⟩
  rcases exists_next?_eq ht with ⟨r', hnext', rfl⟩
  rw [outcome, members, hnext]
  dsimp only
  rw [if_neg (by decide), memberStart, hnext']
  dsimp only
  rw [if_neg (by decide), if_pos rfl, if_pos rfl, ok_bind]
  refine map_bind_eq fun p => ?_
  refine map_bind_eq fun q => ?_
  exact map_bind_eq_map fun _ => rfl

/-- The first member of an object is read like one behind a comma. -/
theorem outcome_members_first {field : String → σ → Reader σ} {gathered : σ} {s t : List Char}
    (h : s.dropWhile isBlank = '"' :: t) :
    outcome (members field true gathered) s =
      outcome (members field false gathered) (',' :: s) := by
  rw [outcome_members_next rfl h]
  rcases exists_next?_eq h with ⟨r, hnext, rfl⟩
  rw [outcome, members, hnext]
  dsimp only
  rw [if_neg (by decide), memberStart, if_pos rfl, if_pos rfl, ok_bind]
  refine map_bind_eq fun p => ?_
  refine map_bind_eq fun q => ?_
  exact map_bind_eq_map fun _ => rfl

/-! ## Records -/

/-- Where no more levels are allowed, the brace of an object is as far as one gets. -/
theorem outcome_record_none {wanted : Record} {s t : List Char}
    (h : s.dropWhile isBlank = '\x7b' :: t) :
    outcome (record wanted (none : Option (Reader α × Reader α))) s = .error .malformed := by
  rcases exists_next?_eq h with ⟨r, hnext, -⟩
  rw [outcome, record, hnext]
  rfl

/-- A record that begins with a brace is read in the form of an object. -/
theorem outcome_record {wanted : Record} {ofObject ofList : Reader α} {s t : List Char}
    (h : s.dropWhile isBlank = '\x7b' :: t) :
    outcome (record wanted (some (ofObject, ofList))) s = outcome ofObject t := by
  rcases exists_next?_eq h with ⟨r, hnext, rfl⟩
  rw [outcome, record, hnext]
  dsimp only
  rw [if_pos (.inl rfl), if_neg (by decide)]
  exact map_bind_eq_map fun _ => rfl

/-- A value is made of its members once all of them are read. -/
theorem outcome_ofMembers {field : String → σ → Reader σ} {start : σ}
    {make : σ → Except Error α} {s : List Char} :
    outcome (ofMembers field start make) s = (do
      let (gathered, r) ← outcome (members field true start) s
      return (← make gathered, r)) := by
  rw [outcome, ofMembers]
  refine map_bind_eq fun p => ?_
  dsimp only
  cases make p.1 <;> rfl

end Railroad.Json
