import Mathlib.Data.Nat.Digits.Defs
import Railroad.Json.Layout
import Railroad.Proofs.Json.Outcome
import Railroad.Proofs.Runs

/-!
# Written strings and numbers are read back

Main results:

- Theorem {lit}`Json.outcome_stringBody_escape`: the escaped characters of a string are
  read back.
- Theorem {lit}`Json.outcome_natural_number`: so are the digits of a number that fits
  into 64 bits.
-/

namespace Railroad.Json

/-! ## Strings -/

/-- A quote ends a string. -/
theorem outcome_stringBody_closing (t : List Char) :
    outcome stringBody ('"' :: t) = .ok ([], t) := by
  rw [outcome, stringBody]
  rfl

/-- A character that needs no escape stands for itself. -/
theorem outcome_stringBody_plain {c : Char} (t : List Char) (hquote : c ≠ '"')
    (hslash : c ≠ '\\') (hcontrol : ¬ c.toNat < 0x20) :
    outcome stringBody (c :: t) = (do
      let (cs, r) ← outcome stringBody t
      return (c :: cs, r)) := by
  rw [outcome, stringBody, if_neg hquote, if_neg hslash, if_neg hcontrol]
  exact map_bind_eq fun _ => rfl

/-- Behind a backslash an escaped character is read. -/
theorem outcome_stringBody_slash {c : Char} {s t : List Char}
    (h : outcome escapedChar s = .ok (c, t)) :
    outcome stringBody ('\\' :: s) = (do
      let (cs, r) ← outcome stringBody t
      return (c :: cs, r)) := by
  rcases exists_of_outcome_eq_ok h with ⟨r, hescaped, rfl⟩
  rw [outcome, stringBody, if_neg (by decide), if_pos rfl, hescaped, ok_bind]
  exact map_bind_eq fun _ => rfl

/-- A character that is escaped by a letter. -/
theorem outcome_escapedChar {letter c : Char} (h : escaped? letter = some c) (t : List Char) :
    outcome escapedChar (letter :: t) = .ok (c, t) := by
  rw [outcome, escapedChar, h]
  rfl

/-- The value of a hexadecimal digit is the number for which it was written. -/
theorem hexValue?_hexDigit {n : Nat} (h : n < 16) : hexValue? (hexDigit n) = some n := by
  have hall : ∀ n < 16, hexValue? (hexDigit n) = some n := by decide
  exact hall n h

/-- Two digits of a number below 256, behind two zeros. -/
theorem hexNumber?_hexDigit {n : Nat} (h : n < 256) :
    hexNumber? '0' '0' (hexDigit (n / 16)) (hexDigit (n % 16)) = some n := by
  have hhigh : n / 16 < 16 := by omega
  have hlow : n % 16 < 16 := Nat.mod_lt _ (by decide)
  have hzero : hexValue? '0' = some 0 := by decide
  simp only [hexNumber?, hzero, hexValue?_hexDigit hhigh, hexValue?_hexDigit hlow]
  simp only [Option.pure_def, Option.bind_eq_bind, Option.bind_some, Option.some.injEq]
  omega

/-- A control character that is escaped by its number. -/
theorem outcome_escapedChar_control {c : Char} (h : c.toNat < 0x20) (t : List Char) :
    outcome escapedChar
        ('u' :: '0' :: '0' :: hexDigit (c.toNat / 16) :: hexDigit (c.toNat % 16) :: t) =
      .ok (c, t) := by
  have hhigh : isHighHalf c.toNat = false := by
    rw [isHighHalf, Bool.and_eq_false_iff, decide_eq_false_iff_not]
    omega
  have hlow : isLowHalf c.toNat = false := by
    rw [isLowHalf, Bool.and_eq_false_iff, decide_eq_false_iff_not]
    omega
  have hunit := hexNumber?_hexDigit (n := c.toNat) (by omega)
  rw [outcome, escapedChar, numberedChar, hexUnit, hunit]
  dsimp only
  rw [ok_bind]
  simp only [hhigh, hlow, Bool.false_eq_true, if_false, Char.ofNat_toNat]
  rfl

/-- One character of a string, however it is written. -/
theorem outcome_stringBody_escape (c : Char) (t : List Char) :
    outcome stringBody (escape c ++ t) = (do
      let (cs, r) ← outcome stringBody t
      return (c :: cs, r)) := by
  have hletter {letter : Char} (h : escaped? letter = some c) :
      outcome stringBody (['\\', letter] ++ t) = (do
        let (cs, r) ← outcome stringBody t
        return (c :: cs, r)) :=
    outcome_stringBody_slash (outcome_escapedChar h t)
  unfold escape
  split_ifs with hquote hslash hline hreturn htab hback hfeed hcontrol
  · exact hletter (by rw [hquote]; rfl)
  · exact hletter (by rw [hslash]; rfl)
  · exact hletter (by rw [hline]; rfl)
  · exact hletter (by rw [hreturn]; rfl)
  · exact hletter (by rw [htab]; rfl)
  · exact hletter (by rw [hback]; rfl)
  · exact hletter (by rw [hfeed]; rfl)
  · exact outcome_stringBody_slash (outcome_escapedChar_control hcontrol t)
  · exact outcome_stringBody_plain t hquote hslash hcontrol

/-- The characters of a string and its closing quote. -/
theorem outcome_stringBody_escapes (cs t : List Char) :
    outcome stringBody (cs.flatMap escape ++ '"' :: t) = .ok (cs, t) := by
  induction cs with
  | nil => exact outcome_stringBody_closing t
  | cons c cs ih =>
    rw [List.flatMap_cons, List.append_assoc, outcome_stringBody_escape, ih]
    rfl

/-! ## Numbers -/

/-- What follows a number in a text does not continue it. -/
def EndsNumber (t : List Char) : Prop :=
  ∀ c, t.head? = some c → c.isDigit = false ∧ c ≠ '.' ∧ c ≠ 'e' ∧ c ≠ 'E'

/-- A run of digits is read up to its end. -/
theorem outcome_digits {ds t : List Char} (hne : ds ≠ []) (hds : ∀ d ∈ ds, d.isDigit = true)
    (ht : EndsNumber t) : outcome Numeral.digits (ds ++ t) = .ok (ds, t) := by
  rcases takeWhile_dropWhile_append hds fun c hc => (ht c hc).1 with ⟨htake, hdrop⟩
  unfold outcome Numeral.digits
  split
  · rename_i hnil
    exact absurd (htake.symm.trans hnil) hne
  · rename_i d ds' hcons
    cases htake.symm.trans hcons
    simp only [hdrop]
    rfl

/-- The digits of a number that is not zero do not begin with a zero. -/
theorem toDigits_ne_zero {n : Nat} (h : 0 < n) : ∃ d ds, Nat.toDigits 10 n = d :: ds ∧ d ≠ '0' := by
  induction n using Nat.strong_induction_on with
  | _ n ih =>
    by_cases hlt : n < 10
    · rw [Nat.toDigits_of_lt_base hlt]
      refine ⟨_, _, rfl, ?_⟩
      have hall : ∀ n < 10, 0 < n → Nat.digitChar n ≠ '0' := by decide
      exact hall n hlt h
    · rcases ih (n / 10) (by omega) (by omega) with ⟨d, ds, hds, hd⟩
      rw [Nat.toDigits_of_base_le (by decide) (by omega), hds]
      exact ⟨d, _, rfl, hd⟩

/-- All digits of a number belong to its whole part, as none of them is a zero that stands in
front of others. -/
theorem outcome_wholePart (n : Nat) {t : List Char} (ht : EndsNumber t) :
    outcome Numeral.wholePart (Nat.toDigits 10 n ++ t) = .ok (Nat.toDigits 10 n, t) := by
  have hall : ∀ d ∈ Nat.toDigits 10 n, d.isDigit = true :=
    fun d hd => Nat.isDigit_of_mem_toDigits (by decide) (by decide) hd
  have hdigits := outcome_digits Nat.toDigits_ne_nil hall ht
  rcases exists_of_outcome_eq_ok hdigits with ⟨⟨r, hlength⟩, hr, rfl : r = t⟩
  rw [outcome, Numeral.wholePart, hr, ok_bind]
  dsimp only
  split
  · rename_i c cs hzero
    -- A zero in front is the only digit.
    by_cases hn : 0 < n
    · rcases toDigits_ne_zero hn with ⟨d, ds, hds, hd⟩
      cases hds.symm.trans hzero
      exact absurd rfl hd
    · obtain rfl : n = 0 := by omega
      cases hzero
  · rfl

/-- Where a number ends, there is no fraction. -/
theorem fractionPart_eq {t : List Char} (ht : EndsNumber t) :
    Numeral.fractionPart t = .ok (none, .whole t) := by
  cases t with
  | nil => rfl
  | cons c t => rw [Numeral.fractionPart, if_neg (ht c rfl).2.1]

/-- Where a number ends, there is no power. -/
theorem exponentPart_eq {t : List Char} (ht : EndsNumber t) :
    Numeral.exponentPart t = .ok (none, .whole t) := by
  cases t with
  | nil => rfl
  | cons c t =>
    have hc : ¬ (c = 'e' ∨ c = 'E') := not_or.mpr (ht c rfl).2.2
    rw [Numeral.exponentPart, if_neg hc]

/-- The digits of a number are taken apart as a number without sign, fraction and power. -/
theorem outcome_unsigned (n : Nat) {t : List Char} (ht : EndsNumber t) :
    outcome (Numeral.unsigned false) (Nat.toDigits 10 n ++ t) =
      .ok (⟨false, Nat.toDigits 10 n, none, none⟩, t) := by
  rcases exists_of_outcome_eq_ok (outcome_wholePart n ht) with ⟨⟨r, hlength⟩, hr, rfl : r = t⟩
  rw [outcome, Numeral.unsigned, hr, ok_bind]
  dsimp only
  rw [fractionPart_eq ht, ok_bind]
  dsimp only [Tail.whole]
  rw [exponentPart_eq ht]
  rfl

/-- The digits of a number below 2 to the power of 64 mean that number. -/
theorem value_toDigits {n : Nat} (h : n < 2 ^ 64) :
    Numeral.value ⟨false, Nat.toDigits 10 n, none, none⟩ = .ok (.natural n) := by
  have hn : Numeral.natOf (Nat.toDigits 10 n) = n := Nat.ofDigitChars_ten_toDigits
  rw [Numeral.value]
  dsimp only
  rw [hn, if_pos]
  exact ⟨rfl, rfl, h, rfl⟩

/-- A digit is not blank. -/
theorem isBlank_of_isDigit {c : Char} (h : c.isDigit = true) : isBlank c = false := by
  have hother {b : Char} (hb : b.isDigit = false) : c ≠ b := by
    rintro rfl
    rw [h] at hb
    cases hb
  have hspace : c ≠ ' ' := hother (by decide)
  have hline : c ≠ '\n' := hother (by decide)
  have htab : c ≠ '\t' := hother (by decide)
  have hreturn : c ≠ '\r' := hother (by decide)
  simp [isBlank, hspace, hline, htab, hreturn]

/-- The digits of a number that fits into 64 bits are read back. -/
theorem outcome_natural_number {n : Nat} (h : n < 2 ^ 64) {blanks t : List Char}
    (hblanks : ∀ c ∈ blanks, isBlank c = true) (ht : EndsNumber t) :
    outcome natural (blanks ++ (number n ++ t)) = .ok (n, t) := by
  obtain ⟨d, ds, hds⟩ := List.exists_cons_of_ne_nil (Nat.toDigits_ne_nil (n := n) (b := 10))
  have hd : d.isDigit = true := by
    apply Nat.isDigit_of_mem_toDigits (b := 10) (n := n) (by decide) (by decide)
    rw [hds]
    exact List.mem_cons_self
  have hunsigned := outcome_unsigned n ht
  have hvalue := value_toDigits h
  rw [hds] at hunsigned hvalue
  rw [number, hds, List.cons_append,
    outcome_natural (dropWhile_blanks_append hblanks (isBlank_of_isDigit hd) _) hd,
    ← List.cons_append, hunsigned, ok_bind]
  dsimp only
  rw [hvalue]
  rfl

end Railroad.Json
