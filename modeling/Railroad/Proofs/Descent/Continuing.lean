import Railroad.Proofs.Descent.Simulation
import Railroad.Proofs.Relocation
import Railroad.Proofs.Token.Restarting

/-!
# Going on behind earlier calls

A descent that has read rules, or has found faults, stands somewhere in its source: at a
token that it has looked at, or behind the last token that it has taken.  From there it
reads what a fresh descent reads from the text that is left, so nothing of an abandoned rule
stays behind.  Only the places of faults count from the beginning of the source.

Main definitions:

- Definition {lit}`Descent.place`: where a descent stands.

Main results:

- Theorem {lit}`Descent.At.exists_left`: the text that is left has the tokens that are left.
- Theorem {lit}`Descent.rules_continue`: a call behind any others is a call for the text that
  is left.
-/

namespace Railroad

/-- The tokens of the source that a scanner has given. -/
def Scanner.given (s : Scanner) : List Token :=
  (Token.ofSource s.source).take ((Token.ofSource s.source).length - s.left.length)

/-- The tokens that a scanner has given, and those that it will give, are those of its
source. -/
theorem Scanner.Sound.given_append_left {s : Scanner} (h : s.Sound) :
    s.given ++ s.left = Token.ofSource s.source := by
  obtain ⟨front, hfront⟩ := h.left_suffix
  rw [given, ← hfront, List.length_append, Nat.add_sub_cancel, List.take_left]

namespace Descent

/-- The offset at which a descent stands: the start of the token that it has looked at and not
taken, else the stop of the last token that it has taken, and 0 if it has taken none. -/
def place (d : Descent) : Nat :=
  match d.scanner.ahead with
  | some (some t) => t.span.start
  | _ => Token.lastStop 0 d.scanner.given

variable {source : String} {depth : Nat} {ts : List Token} {d : Descent}

/-- The text behind the place of a descent, and the tokens that can be cut from it. -/
theorem At.exists_left (h : At source depth ts d) :
    ∃ front rest, source.toList = front ++ rest ∧ d.place = Text.byteLength front ∧
      Token.ofText d.place rest = ts := by
  have htokens := h.sound.given_append_left
  rw [h.left_eq, h.source_eq] at htokens
  obtain ⟨front, rest, hsource, hlast, hleft⟩ :=
    Token.exists_split_of_ofText_eq_append htokens.symm
  rw [Nat.zero_add] at hlast
  cases hahead : d.scanner.ahead with
  | none =>
    have hplace : d.place = Token.lastStop 0 d.scanner.given := by rw [place, hahead]
    rw [hplace]
    exact ⟨front, rest, hsource, hlast, hleft⟩
  | some token =>
    cases token with
    | none =>
      have hplace : d.place = Token.lastStop 0 d.scanner.given := by rw [place, hahead]
      rw [hplace]
      exact ⟨front, rest, hsource, hlast, hleft⟩
    | some t =>
      have hplace : d.place = t.span.start := by rw [place, hahead]
      obtain ⟨others, rfl⟩ : ∃ others, ts = t :: others := by
        rw [← h.left_eq, Scanner.left, hahead]
        exact ⟨_, rfl⟩
      -- Between the tokens that have been taken and this one, there may be skipped text.
      obtain ⟨gap, rest', rfl, hstart, hcut⟩ := Token.exists_split_of_ofText_eq_cons hleft
      rw [hplace]
      refine ⟨front ++ gap, rest', ?_, ?_, hcut⟩
      · rw [hsource, List.append_assoc]
      · rw [hstart, hlast, Text.byteLength_append]

/-- The outcome for tokens of a text that stands `k` bytes further back. -/
theorem run_shift (k : Nat) (cs : List Char) :
    (Reading.start.run (k + Text.byteLength cs) (Token.ofText k cs)).1 =
      (Reading.start.run (Text.byteLength cs) (Token.ofText 0 cs)).1.mapError
        (Rule.Error.shift k) := by
  have hsize : (Span.atEnd (Text.byteLength cs)).shift k =
      .atEnd (k + Text.byteLength cs) := by
    simp [Span.atEnd, Span.shift, Nat.add_comm]
  have hrun := Reading.run_relocate (Span.shift_merge k) hsize .start (Token.ofText 0 cs)
  rw [Rule.Error.relocate_shift, Token.relocate_shift, ← Token.ofText_eq_map_shift] at hrun
  exact congrArg Prod.fst hrun

/-- However often a source has been read, and whatever faults were found, no group stays open,
and the next call has the outcome for the text behind the place where the descent stands,
except that faults name places in the whole source. -/
theorem rules_continue (source : String) (n : Nat) :
    ∃ outcomes d rest d₀ d', rules n (ofSource source) = some (outcomes, d) ∧ d.depth = 0 ∧
      Text.dropBytes? d.place source.toList = some rest ∧
      rule.run.run (ofSource (String.ofList rest)) =
        some (Rule.parse (String.ofList rest), d₀) ∧
      rule.run.run d =
        some ((Rule.parse (String.ofList rest)).mapError (Rule.Error.shift d.place), d') := by
  obtain ⟨d, hrules, hd⟩ := exists_rules_ofSource_eq source n
  obtain ⟨front, rest, hsource, hplace, htokens⟩ := hd.exists_left
  obtain ⟨d₀, hfresh, -⟩ := reads_rule (List.suffix_refl _) _ (at_ofSource (String.ofList rest))
  obtain ⟨d', hnext, -⟩ := reads_rule hd.suffix d hd
  refine ⟨_, d, rest, d₀, d', hrules, hd.depth_eq, ?_, hfresh, ?_⟩
  · rw [hsource, hplace]
    exact Text.dropBytes?_byteLength front rest
  · have hparse : Rule.parse (String.ofList rest) =
        (Reading.start.run (Text.byteLength rest) (Token.ofText 0 rest)).1 := by
      rw [Rule.parse, Rule.Parser.next, Rule.Parser.ofSource, Token.ofSource,
        String.toList_ofList]
    have hsize : Text.byteLength source.toList = d.place + Text.byteLength rest := by
      rw [hsource, hplace, Text.byteLength_append]
    rw [hnext, hparse, hsize, ← run_shift, htokens]

end Descent

end Railroad
