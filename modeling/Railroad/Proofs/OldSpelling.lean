import Railroad.Proofs.Flags

/-!
# The old spelling of a flag

The flag for rail text may be spelled with one dash, as the first argument.  Whether it is the
flag or the name of a file is decided by the number of arguments behind it, before any of
them is read.  Where a file follows, or nothing at all, that is what one would expect.  Where
only flags follow, there is a flag and no file.

Main definitions:

- Definition {lit}`CommandLine.withLatex`: one more flag for a command line.
- Definition {lit}`CommandLine.Spares`: what is taken does not depend on that flag.

Main results:

- Theorem {lit}`CommandLine.spares_takeArgs`: arguments without the flag are taken in the same
  way behind it.
- Theorem {lit}`CommandLine.ofArgs_latex`: the old spelling in front of arguments.
-/

namespace Railroad.CommandLine

/-- The command line on which rail text is wanted as well. -/
def withLatex (line : CommandLine) : CommandLine :=
  { line with flags := { line.flags with latex := true } }

/-- What takes arguments without the flag for rail text takes them in the same way where that
flag has been given before. -/
def Spares (take : CommandLine → Except Refusal CommandLine) : Prop :=
  ∀ line line', take line = .ok line' → line'.flags.latex = false →
    line.flags.latex = false ∧ take line.withLatex = .ok line'.withLatex

/-! ## Arguments -/

theorem spares_ok : Spares .ok := by
  intro line line' h hlatex
  cases h
  exact ⟨hlatex, rfl⟩

theorem spares_error (refusal : Refusal) : Spares fun _ => .error refusal := by
  intro line line' h
  cases h

/-- Taking one thing after another. -/
theorem Spares.bind {first second : CommandLine → Except Refusal CommandLine}
    (hfirst : Spares first) (hsecond : Spares second) :
    Spares fun line => first line >>= second := by
  intro line line' h hlatex
  obtain ⟨between, hbetween, hrest⟩ := bind_eq_ok_iff.mp h
  obtain ⟨hlatexBetween, hrest'⟩ := hsecond between line' hrest hlatex
  obtain ⟨hlatexLine, hbetween'⟩ := hfirst line between hbetween hlatexBetween
  refine ⟨hlatexLine, ?_⟩
  change first line.withLatex >>= second = _
  rw [hbetween', ok_bind, hrest']

/-- A file, or some files. -/
theorem spares_files (files : List String) :
    Spares fun line => .ok { line with files := line.files ++ files } := by
  intro line line' h hlatex
  cases h
  exact ⟨hlatex, rfl⟩

/-- A flag that is given is another one, if the flag for rail text is then not given. -/
theorem give_latex {flags flags' : Flags} {flag : Flag} (h : give flags flag = .ok flags')
    (hlatex : flags'.latex = false) :
    flags.latex = false ∧ give { flags with latex := true } flag =
      .ok { flags' with latex := true } := by
  cases flag with
  | latex | ast | quiet | verbose =>
    simp only [give] at h ⊢
    split at h
    · cases h
    · cases h
      simp_all
  | help => cases h

/-- A flag is taken alike, unless it is the one for rail text. -/
theorem spares_takeFlag (flag : Flag) : Spares fun line => takeFlag line flag := by
  intro line line' h hlatex
  simp only [takeFlag] at h ⊢
  split at h
  · cases h
  · rename_i hnames
    obtain ⟨flags, hgive, hline⟩ := bind_eq_ok_iff.mp h
    cases hline
    obtain ⟨hlatexLine, hgive'⟩ := give_latex hgive hlatex
    refine ⟨hlatexLine, ?_⟩
    rw [withLatex, if_neg hnames, hgive', ok_bind]
    rfl

/-- So is a flag by its name. -/
theorem spares_takeNamed (name : List Char) : Spares fun line => takeNamed line name := by
  unfold takeNamed
  split
  · exact spares_error .unknownFlag
  · split
    · exact spares_error .unwantedValue
    · exact spares_takeFlag _

/-- So are flags by their letters. -/
theorem spares_takeLetters (letters : List Char) :
    Spares fun line => takeLetters line letters := by
  induction letters with
  | nil => exact spares_ok
  | cons c cs ih =>
    simp only [takeLetters]
    split
    · exact spares_error .unknownFlag
    · exact (spares_takeFlag _).bind ih

/-- So is any argument. -/
theorem spares_takeArg (arg : String) : Spares fun line => takeArg line arg := by
  unfold takeArg
  split
  · exact spares_takeNamed _
  · exact spares_takeLetters _
  · exact spares_files [arg]

/-- Arguments without the flag for rail text are taken in the same way behind it. -/
theorem spares_takeArgs (args : List String) : Spares fun line => takeArgs line args := by
  induction args with
  | nil => exact spares_ok
  | cons arg args ih =>
    simp only [takeArgs]
    split
    · exact spares_files args
    · exact (spares_takeArg arg).bind ih

/-! ## Command lines -/

/-- A command line that passes the checks passes them with the flag for rail text as well,
unless that flag is excluded. -/
theorem check_withLatex {line line' : CommandLine} (h : check line = .ok line') :
    line' = line ∧ check line.withLatex =
      if line.flags.ast then .error .conflict else .ok line.withLatex := by
  obtain ⟨hline, hnames, -, hlevel⟩ := check_eq_ok_iff.mp h
  refine ⟨hline, ?_⟩
  have hnames' : ¬ line.withLatex.files.contains "" := by simpa [withLatex] using hnames
  have hlevel' : ¬ (line.withLatex.flags.quiet ∧ line.withLatex.flags.verbose) := hlevel
  have hmode : (line.withLatex.flags.latex ∧ line.withLatex.flags.ast) ↔ line.flags.ast := by
    simp [withLatex]
  rw [check, if_neg hnames', if_neg hlevel']
  simp only [hmode]

/-- Behind the flag for rail text, arguments that can be taken without it are refused only if
they exclude it. -/
theorem parse_latex {args : List String} {line : CommandLine} (h : parse args = .ok line)
    (hlatex : line.flags.latex = false) :
    parse ("--latex" :: args) =
      if line.flags.ast then .error .conflict else .ok line.withLatex := by
  obtain ⟨taken, htaken, hcheck⟩ := bind_eq_ok_iff.mp h
  obtain ⟨rfl, hcheck'⟩ := check_withLatex hcheck
  have htaken' : takeArgs (withLatex ⟨noFlags, []⟩) args = .ok line.withLatex :=
    (spares_takeArgs args _ _ htaken hlatex).2
  have hflag : takeArg ⟨noFlags, []⟩ "--latex" = .ok (withLatex ⟨noFlags, []⟩) := rfl
  rw [parse, takeArgs, if_neg (by decide), hflag, ok_bind, htaken', ok_bind, hcheck']

/-- The old spelling is that of the flag if anything stands behind it. -/
theorem ofArgs_latex_of_ne_nil (program : String) {args : List String} (h : args ≠ []) :
    ofArgs (program :: "-latex" :: args) = parse ("--latex" :: args) := by
  cases args with
  | nil => exact absurd rfl h
  | cons arg args => rfl

/-- The old spelling in front of arguments that can be taken, and among which the flag is not
given.  If there is a file among them, it is the flag.  If there are no arguments, it is a
file.  If there are but flags, it is not taken for a file, as it should be, but for the flag,
and there is no file at all. -/
theorem ofArgs_latex {program : String} {args : List String} {line : CommandLine}
    (h : parse args = .ok line) (hlatex : line.flags.latex = false)
    (hast : line.files ≠ [] → line.flags.ast = false) :
    (line.files ≠ [] →
        ofArgs (program :: "-latex" :: args) = .ok line.withLatex ∧
          line.withLatex.mode = .rail ∧ line.withLatex.files = line.files) ∧
      (args = [] →
        ofArgs (program :: "-latex" :: args) = .ok { line with files := ["-latex"] }) ∧
      (line.files = [] → args ≠ [] →
        ofArgs (program :: "-latex" :: args) =
          if line.flags.ast then .error .conflict else .ok line.withLatex) := by
  refine ⟨?_, ?_, ?_⟩
  · intro hfiles
    have hne : args ≠ [] := by
      rintro rfl
      cases h
      exact hfiles rfl
    have hmode : line.withLatex.flags.ast = false := hast hfiles
    refine ⟨?_, ?_, rfl⟩
    · rw [ofArgs_latex_of_ne_nil program hne, parse_latex h hlatex, if_neg (by simp [hast hfiles])]
    · rw [mode, if_neg (by simp [hmode]), withLatex, if_pos rfl]
  · rintro rfl
    cases h
    rfl
  · intro _ hne
    rw [ofArgs_latex_of_ne_nil program hne, parse_latex h hlatex]

/-- Among the arguments there is a file, and one behind two dashes that looks like a flag. -/
theorem ofArgs_latex_file :
    parse ["-v", "a", "--", "-q"] = .ok ⟨⟨false, false, false, true⟩, ["a", "-q"]⟩ ∧
      ofArgs ["railroad", "-latex", "-v", "a", "--", "-q"] =
        .ok ⟨⟨true, false, false, true⟩, ["a", "-q"]⟩ := by
  have h : parse ["-v", "a", "--", "-q"] = .ok ⟨⟨false, false, false, true⟩, ["a", "-q"]⟩ := rfl
  exact ⟨h, ((ofArgs_latex h rfl fun _ => rfl).1 (List.cons_ne_nil _ _)).1⟩

/-- No file follows the old spelling, which is nevertheless not taken for one. -/
theorem ofArgs_latex_quiet :
    parse ["-q"] = .ok ⟨⟨false, false, true, false⟩, []⟩ ∧
      ofArgs ["railroad", "-latex", "-q"] = .ok ⟨⟨true, false, true, false⟩, []⟩ ∧
      ofArgs ["railroad", "-latex", "-q"] ≠
        .ok ⟨⟨false, false, true, false⟩, ["-latex"]⟩ := by
  have h : ofArgs ["railroad", "-latex", "-q"] = .ok ⟨⟨true, false, true, false⟩, []⟩ := rfl
  refine ⟨rfl, h, ?_⟩
  rw [h, ne_eq, Except.ok.injEq]
  decide

end Railroad.CommandLine
