import Railroad.Text.Blank
import Mathlib.Data.List.DropRight

/-!
# Trimmed texts

Trimming takes characters away from both ends of a text only, and a text that has
been trimmed stays as it is.

Main results:

- Theorem {lit}`Text.trim_infix`: a trimmed text is a part of the text.
- Theorem {lit}`Text.trim_trim`: trimming twice is trimming once.
-/

namespace Railroad.Text

theorem trimEnd_eq_rdropWhile (cs : List Char) : trimEnd cs = cs.rdropWhile isBlank := rfl

/-- A trimmed text is a part of the text. -/
theorem trim_infix (cs : List Char) : trim cs <:+: cs := by
  rw [trim, trimEnd_eq_rdropWhile]
  exact (List.rdropWhile_prefix _ _).isInfix.trans (List.dropWhile_suffix _).isInfix

/-- Taking blanks from the end brings none to the front. -/
theorem trimStart_trimEnd_trimStart (cs : List Char) :
    trimStart (trimEnd (trimStart cs)) = trimEnd (trimStart cs) := by
  have hprefix : trimEnd (trimStart cs) <+: trimStart cs := List.rdropWhile_prefix _ _
  cases htrim : trimEnd (trimStart cs) with
  | nil => rfl
  | cons c rest =>
    rw [htrim] at hprefix
    rcases hprefix with ⟨rest', hrest⟩
    have hhead := List.head?_dropWhile_not isBlank cs
    rw [show cs.dropWhile isBlank = trimStart cs from rfl, ← hrest] at hhead
    have hc : isBlank c = false := by simpa using hhead
    rw [trimStart, List.dropWhile_cons_of_neg (by simp [hc])]

/-- Trimming twice is trimming once. -/
theorem trim_trim (cs : List Char) : trim (trim cs) = trim cs := by
  rw [trim, trim, trimStart_trimEnd_trimStart, trimEnd_eq_rdropWhile, trimEnd_eq_rdropWhile]
  exact List.rdropWhile_idempotent _ _

end Railroad.Text
