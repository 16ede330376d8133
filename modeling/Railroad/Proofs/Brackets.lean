import Railroad.Token

/-!
# Parentheses among tokens

A group that is opened in front of some tokens is closed by them when they begin with more
closing than opening parentheses.  Tokens are balanced if they close every group that they
open, and no other.

Main definitions:

- Definition {lit}`Token.ClosesGroup`: some tokens close a group opened in front of them.
- Definition {lit}`Token.Balanced`: every opening parenthesis has its closing one.

Main results:

- Theorems {lit}`Token.Balanced.append` and {lit}`Token.Balanced.group`: how balanced
  tokens are made.
- Theorem {lit}`Token.Balanced.closesGroup`: every group among balanced tokens is closed.
-/

namespace Railroad.Token

/-- How many groups some tokens open. -/
def openings (ts : List Token) : Nat :=
  ts.countP (·.kind = .openParen)

/-- How many groups some tokens close. -/
def closings (ts : List Token) : Nat :=
  ts.countP (·.kind = .closeParen)

/-- Tokens that close a group which is open in front of them: they begin with more closing
than opening parentheses. -/
def ClosesGroup (ts : List Token) : Prop :=
  ∃ front rest, ts = front ++ rest ∧ openings front < closings front

/-- Tokens that close all groups which they open, and no other group. -/
structure Balanced (ts : List Token) : Prop where
  openings_eq : openings ts = closings ts
  not_closesGroup : ¬ClosesGroup ts

@[simp] theorem openings_append (ts us : List Token) :
    openings (ts ++ us) = openings ts + openings us :=
  List.countP_append

@[simp] theorem closings_append (ts us : List Token) :
    closings (ts ++ us) = closings ts + closings us :=
  List.countP_append

@[simp] theorem openings_cons (t : Token) (ts : List Token) :
    openings (t :: ts) = openings ts + if t.kind = .openParen then 1 else 0 := by
  simp [openings, List.countP_cons]

@[simp] theorem closings_cons (t : Token) (ts : List Token) :
    closings (t :: ts) = closings ts + if t.kind = .closeParen then 1 else 0 := by
  simp [closings, List.countP_cons]

@[simp] theorem openings_nil : openings [] = 0 := rfl

@[simp] theorem closings_nil : closings [] = 0 := rfl

/-- No group around is closed as long as no more have been closed than opened. -/
theorem not_closesGroup_iff {ts : List Token} :
    ¬ClosesGroup ts ↔ ∀ front rest, ts = front ++ rest → closings front ≤ openings front := by
  simp [ClosesGroup]

theorem balanced_nil : Balanced [] := by
  refine ⟨rfl, not_closesGroup_iff.mpr ?_⟩
  intro front rest hsplit
  obtain ⟨rfl, -⟩ := List.append_eq_nil_iff.mp hsplit.symm
  exact Nat.le_refl _

/-- Balanced tokens in a row are balanced. -/
theorem Balanced.append {ts us : List Token} (h : Balanced ts) (h' : Balanced us) :
    Balanced (ts ++ us) := by
  have hts := h.openings_eq
  have hus := h'.openings_eq
  refine ⟨by rw [openings_append, closings_append, hts, hus], not_closesGroup_iff.mpr ?_⟩
  intro front rest hsplit
  -- The beginning ends in the first part, or it has all of the first part.
  rcases List.append_eq_append_iff.mp hsplit with ⟨more, rfl, hmore⟩ | ⟨more, hmore, -⟩
  · have hle := not_closesGroup_iff.mp h'.not_closesGroup more rest hmore
    rw [openings_append, closings_append]
    omega
  · exact not_closesGroup_iff.mp h.not_closesGroup front more hmore

/-- A token that is no parenthesis. -/
theorem balanced_singleton {t : Token} (hopen : t.kind ≠ .openParen)
    (hclose : t.kind ≠ .closeParen) : Balanced [t] := by
  refine ⟨by simp [hopen, hclose], not_closesGroup_iff.mpr ?_⟩
  intro front rest hsplit
  have hle : closings front ≤ closings [t] := by
    rw [hsplit, closings_append]
    exact Nat.le_add_right _ _
  simp only [closings_cons, closings_nil, hclose, if_false] at hle
  omega

/-- Balanced tokens between two parentheses are balanced. -/
theorem Balanced.group {opening closing : Token} {ts : List Token} (h : Balanced ts)
    (hopen : opening.kind = .openParen) (hclose : closing.kind = .closeParen) :
    Balanced (opening :: (ts ++ [closing])) := by
  have hts := h.openings_eq
  have hlast : closings [closing] = 1 := by simp [hclose]
  refine ⟨by simp [hopen, hclose, hts], not_closesGroup_iff.mpr ?_⟩
  intro front rest hsplit
  rcases List.cons_eq_append_iff.mp hsplit with ⟨rfl, -⟩ | ⟨front, rfl, hfront⟩
  · exact Nat.le_refl _
  · simp only [openings_cons, closings_cons, hopen, if_true, reduceCtorEq, if_false]
    rcases List.append_eq_append_iff.mp hfront with ⟨more, rfl, hmore⟩ | ⟨more, hmore, -⟩
    · have hle : closings more ≤ closings [closing] := by
        rw [hmore, closings_append]
        exact Nat.le_add_right _ _
      simp only [openings_append, closings_append]
      omega
    · have hle := not_closesGroup_iff.mp h.not_closesGroup front more hmore
      omega

/-- Every group that balanced tokens open is closed behind its parenthesis. -/
theorem Balanced.closesGroup {front rest : List Token} {opening : Token}
    (h : Balanced (front ++ opening :: rest)) (hopen : opening.kind = .openParen) :
    ClosesGroup rest := by
  have hle := not_closesGroup_iff.mp h.not_closesGroup front (opening :: rest) rfl
  have heq := h.openings_eq
  simp only [openings_append, closings_append, openings_cons, closings_cons, hopen, if_true,
    reduceCtorEq, if_false] at heq
  exact ⟨rest, [], (List.append_nil rest).symm, by omega⟩

end Railroad.Token
