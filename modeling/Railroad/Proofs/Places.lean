import Railroad.Proofs.Calls
import Railroad.Proofs.Faults.Explained

/-!
# Places of faults

Every fault of a source names a range of its bytes that begins and ends between characters:
that of a token, or one from the start of a token to the stop of another, or the end of the
source.  This holds however often the source has been read before.

Main definitions:

- Definition {lit}`Text.IsBoundary`: an offset between characters.
- Definition {lit}`Span.Within`: a range that a text has.

Main results:

- Theorem {lit}`Explained.within`: a fault that tokens explain names such a range.
- Theorem {lit}`Descent.rules_carried_out`: all operations of a descent can be carried out,
  and the faults that it ends with name such ranges.
-/

namespace Railroad

/-- A text can be cut at the offset, which then does not split a character. -/
def Text.IsBoundary (cs : List Char) (offset : Nat) : Prop :=
  ∃ front back, cs = front ++ back ∧ byteLength front = offset

/-- The range has its ends in the right order and within the text, and they split no
character. -/
structure Span.Within (span : Span) (cs : List Char) : Prop where
  start_le_stop : span.start ≤ span.stop
  stop_le : span.stop ≤ Text.byteLength cs
  start_boundary : Text.IsBoundary cs span.start
  stop_boundary : Text.IsBoundary cs span.stop

/-- The end of a text is between characters. -/
theorem Text.isBoundary_byteLength (cs : List Char) : IsBoundary cs (byteLength cs) :=
  ⟨cs, [], (List.append_nil cs).symm, rfl⟩

variable {source : String}

theorem Span.within_atEnd (cs : List Char) : (Span.atEnd (Text.byteLength cs)).Within cs :=
  ⟨Nat.le_refl _, Nat.le_refl _, Text.isBoundary_byteLength cs, Text.isBoundary_byteLength cs⟩

/-- A token lies within its source. -/
theorem Token.span_within {t : Token} (h : t ∈ ofSource source) :
    t.span.Within source.toList := by
  have hcuts := cuts_ofSource source
  obtain ⟨-, hlt, hle⟩ := hcuts.span_bounds h
  obtain ⟨front, rest, hsource, hstart, hstop, -⟩ := hcuts.exists_place h
  rw [Nat.zero_add] at hstart hle
  refine ⟨hlt.le, hle, ⟨front, _, hsource, hstart.symm⟩, front ++ t.text.toList, rest, ?_, ?_⟩
  · rw [hsource, List.append_assoc]
  · rw [hstop, hstart, Text.byteLength_append]

/-- The smallest range around two ranges of a text. -/
theorem Span.Within.merge {s t : Span} {cs : List Char} (hs : s.Within cs) (ht : t.Within cs) :
    (s.merge t).Within cs := by
  refine ⟨?_, ?_, ?_, ?_⟩
  · have hle := hs.start_le_stop
    rw [start_merge, stop_merge]
    omega
  · exact Nat.max_le.mpr ⟨hs.stop_le, ht.stop_le⟩
  · rcases Nat.le_total s.start t.start with hle | hle
    · rw [start_merge, Nat.min_eq_left hle]
      exact hs.start_boundary
    · rw [start_merge, Nat.min_eq_right hle]
      exact ht.start_boundary
  · rcases Nat.le_total s.stop t.stop with hle | hle
    · rw [stop_merge, Nat.max_eq_right hle]
      exact ht.stop_boundary
    · rw [stop_merge, Nat.max_eq_left hle]
      exact hs.stop_boundary

/-- A faulty token is reported at its own place. -/
theorem span_faultOf (t : Token) : (Body.faultOf t).span = t.span := by
  rw [Body.faultOf]
  split <;> rfl

/-- A fault that tokens of a source explain names a range of the source. -/
theorem Explained.within {all rest : List Token} {e : Rule.Error}
    (hall : ∀ t ∈ all, t ∈ Token.ofSource source)
    (h : Explained (Text.byteLength source.toList) all rest e) :
    e.span.Within source.toList := by
  cases h with
  | unexpected what ht => exact Token.span_within (hall _ ht)
  | onlyName h hkind => exact Span.within_atEnd source.toList
  | faulty ht hkind =>
    rw [span_faultOf]
    exact Token.span_within (hall _ ht)
  | tooDeep ht hkind => exact Token.span_within (hall _ ht)
  | @betweenBars before after bar bar' h hbar hbar' =>
    have hmem : bar ∈ all := by simp [h]
    have hmem' : bar' ∈ all := by simp [h]
    exact (Token.span_within (hall _ hmem)).merge (Token.span_within (hall _ hmem'))
  | aroundBar hmem hbar => exact Token.span_within (hall _ hmem)
  | @unclosed before after opening h hopening hafter hrest =>
    have hmem : opening ∈ all := by simp [h]
    exact Token.span_within (hall _ hmem)

/-- Wherever a parser goes on in a source, its faults name ranges of the source. -/
theorem Rule.Parser.within_of_mem_outcomes {p : Parser} {n : Nat} {e : Rule.Error}
    (hsize : p.size = Text.byteLength source.toList) (hp : p.tokens <:+ Token.ofSource source)
    (h : .error e ∈ p.outcomes n) : e.span.Within source.toList := by
  induction n generalizing p with
  | zero => cases h
  | succ n ih =>
    rcases List.mem_cons.mp h with h | h
    · have hexplained := Reading.ReadFrom.start.explained h.symm
      rw [hsize] at hexplained
      exact hexplained.within fun t ht => hp.subset ht
    · have hsize' : p.next.2.size = Text.byteLength source.toList := hsize
      exact ih hsize' ((Reading.run_suffix _ _).trans hp) h

namespace Descent

/-- However often a source is read, all operations of the descent can be carried out: no
index is out of bounds, no text is cut inside of a character, and no count falls below zero.
It has the outcomes of the parser, and every fault among them names a range of the source. -/
theorem rules_carried_out (source : String) (n : Nat) :
    ∃ d, rules n (ofSource source) = some ((Rule.Parser.ofSource source).outcomes n, d) ∧
      ∀ e, .error e ∈ (Rule.Parser.ofSource source).outcomes n →
        e.span.Within source.toList := by
  obtain ⟨d, hrules, -⟩ := exists_rules_ofSource_eq source n
  refine ⟨d, hrules, ?_⟩
  intro e he
  exact Rule.Parser.within_of_mem_outcomes rfl (List.suffix_refl _) he

/-- The second fault of a source, at a bracket around a character of two bytes. -/
theorem rules_carried_out_bracket :
    (∃ d, rules 2 (ofSource "a: 'é' ) [é") =
        some ([.error (.unexpectedToken "end of rule" "')'" ⟨8, 9⟩),
          .error (.unexpectedToken "rule name" "error" ⟨10, 13⟩)], d)) ∧
      Span.Within ⟨10, 13⟩ "a: 'é' ) [é".toList := by
  have hfaults : (Rule.Parser.ofSource "a: 'é' ) [é").outcomes 2 =
      [.error (.unexpectedToken "end of rule" "')'" ⟨8, 9⟩),
        .error (.unexpectedToken "rule name" "error" ⟨10, 13⟩)] := by
    decide +kernel
  obtain ⟨d, hrules, hwithin⟩ := rules_carried_out "a: 'é' ) [é" 2
  rw [hfaults] at hrules hwithin
  refine ⟨⟨d, hrules⟩, hwithin (.unexpectedToken "rule name" "error" ⟨10, 13⟩) ?_⟩
  exact List.mem_cons_of_mem _ List.mem_cons_self

end Descent

end Railroad
