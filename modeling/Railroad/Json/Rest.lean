/-!
# What is behind a part of a text

Readers take parts from the front of a text.  The types here say of the text
behind such a part that it is shorter, so that loops of readers come to an end.

Main definitions:

- Definition {lit}`Json.Rest`: the texts shorter than a given one.
- Definition {lit}`Json.Tail`: the texts that are not longer.
-/

namespace Railroad.Json

/-- A text that is shorter than `s`. -/
abbrev Rest (s : List Char) : Type := { r : List Char // r.length < s.length }

/-- A text that is not longer than `s`. -/
abbrev Tail (s : List Char) : Type := { r : List Char // r.length ≤ s.length }

/-- A text is not longer than itself. -/
def Tail.whole (s : List Char) : Tail s :=
  ⟨s, Nat.le_refl _⟩

/-- A shorter text is not longer. -/
def Rest.tail {s : List Char} (r : Rest s) : Tail s :=
  ⟨r.1, Nat.le_of_lt r.2⟩

/-- What is behind a part of a shorter text is shorter too. -/
def Rest.after {s : List Char} (r : Rest s) (t : Tail r.1) : Rest s :=
  ⟨t.1, Nat.lt_of_le_of_lt t.2 r.2⟩

/-- What is shorter than a text that is not longer is shorter too. -/
def Tail.after {s : List Char} (t : Tail s) (r : Rest t.1) : Rest s :=
  ⟨r.1, Nat.lt_of_lt_of_le r.2 t.2⟩

/-- What is behind a part of a text that has lost its first character. -/
def Tail.behind {s : List Char} (c : Char) (t : Tail s) : Rest (c :: s) :=
  ⟨t.1, Nat.lt_succ_of_le t.2⟩

/-- What is shorter than a text is not longer than that text without its first
character. -/
def Rest.uncons {c : Char} {s : List Char} (r : Rest (c :: s)) : Tail s :=
  ⟨r.1, Nat.le_of_lt_succ r.2⟩

end Railroad.Json
