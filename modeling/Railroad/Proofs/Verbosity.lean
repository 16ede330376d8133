import Railroad.Program
import Railroad.Proofs.Batch
import Railroad.Proofs.FlagOrder

/-!
# Verbosity

How much is logged has no influence on what a run does.  The flags for it choose among the
records of the run, which are the same whether or not they are written.

Main definitions:

- Definition {lit}`Log.lines`: the lines of records.
- Definition {lit}`CommandLine.choosing`: the flags for a mode and a level.

Main results:

- Theorem {lit}`CommandLine.ofArgs_choosing`: files among the flags for a mode and a level.
- Theorem {lit}`Program.run_choosing`: a run for a mode and a level.
- Theorem {lit}`Program.verbosity_filters`: three runs that differ in their records only.
-/

namespace Railroad

/-! ## The flags for modes and levels -/

/-- The arguments that choose a mode. -/
def Batch.Mode.args : Mode → List String
  | .diagram => []
  | .rail => ["--latex"]
  | .tree => ["--ast"]

/-- The arguments that choose a level. -/
def Log.Level.args : Level → List String
  | .error => ["-q"]
  | .warning => []
  | .detail => ["-v"]

namespace CommandLine

/-- The flags for a mode and a level. -/
def choosing (mode : Batch.Mode) (level : Log.Level) : Flags :=
  ⟨mode = .rail, mode = .tree, level = .error, level = .detail⟩

@[simp] theorem mode_choosing (m : Batch.Mode) (level : Log.Level) (files : List String) :
    mode ⟨choosing m level, files⟩ = m := by
  cases m <;> rfl

@[simp] theorem logLevel_choosing (m : Batch.Mode) (level : Log.Level) (files : List String) :
    logLevel ⟨choosing m level, files⟩ = level := by
  cases level <;> rfl

/-- The arguments for a mode are flags. -/
theorem isSome_flag?_of_mem_mode {m : Batch.Mode} : ∀ arg ∈ m.args, (flag? arg).isSome := by
  cases m <;> decide

/-- So are those for a level. -/
theorem isSome_flag?_of_mem_level {level : Log.Level} : ∀ arg ∈ level.args, (flag? arg).isSome := by
  cases level <;> decide

/-- All flags stand among the arguments that are no files. -/
theorem filterMap_flag?_eq (args : List String) :
    args.filterMap flag? = (args.filter (¬ IsFile ·)).filterMap flag? := by
  induction args with
  | nil => rfl
  | cons arg args ih =>
    by_cases hfile : IsFile arg
    · rw [List.filterMap_cons_none hfile.flag?_eq_none, ih,
        List.filter_cons_of_neg (by simpa using hfile)]
    · rw [List.filter_cons_of_pos (by simpa using hfile), List.filterMap_cons, List.filterMap_cons,
        ih]

section Arguments

variable {m : Batch.Mode} {front back : List String}

/-- The flags of a mode and a level are given in any order. -/
theorem give_choosing (hmode : (front ++ back).filter (¬ IsFile ·) = m.args)
    (level : Log.Level) :
    ((front ++ (level.args ++ back)).filterMap flag?).foldlM give noFlags =
      .ok (choosing m level) := by
  have hflags : (level.args ++ (front ++ back)).filterMap flag? =
      level.args.filterMap flag? ++ m.args.filterMap flag? := by
    rw [List.filterMap_append, filterMap_flag?_eq (front ++ back), hmode]
  have hperm := (List.perm_append_comm_assoc front level.args back).filterMap flag?
  rw [hflags] at hperm
  refine foldlM_give_eq_ok_iff.mpr (hperm.trans ?_)
  cases m <;> cases level <;> decide

/-- Whatever is no file spells out a flag. -/
theorem isFile_or_flag? (hmode : (front ++ back).filter (¬ IsFile ·) = m.args)
    {level : Log.Level} {arg : String} (h : arg ∈ front ++ (level.args ++ back)) :
    IsFile arg ∨ (flag? arg).isSome := by
  by_cases hfile : IsFile arg
  · exact .inl hfile
  · right
    have hmem : arg ∈ level.args ∨ arg ∈ m.args := by
      rw [← hmode, List.mem_filter, decide_eq_true_iff, List.mem_append]
      rw [List.mem_append, List.mem_append] at h
      rcases h with hfront | hlevel | hback
      · exact .inr ⟨.inl hfront, hfile⟩
      · exact .inl hlevel
      · exact .inr ⟨.inr hback, hfile⟩
    rcases hmem with hlevel | hmode
    · exact isSome_flag?_of_mem_level arg hlevel
    · exact isSome_flag?_of_mem_mode arg hmode

/-- The files among the flags for a mode and a level. -/
theorem ofArgs_choosing (hmode : (front ++ back).filter (¬ IsFile ·) = m.args)
    (program : String) (level : Log.Level) :
    ofArgs (program :: (front ++ (level.args ++ back))) =
      .ok ⟨choosing m level, (front ++ back).filter (IsFile ·)⟩ := by
  have hfiles : (front ++ (level.args ++ back)).filter (IsFile ·) =
      (front ++ back).filter (IsFile ·) := by
    have hlevel : level.args.filter (IsFile ·) = [] := by cases level <;> decide
    rw [List.filter_append, List.filter_append, hlevel, List.nil_append, ← List.filter_append]
  rw [ofArgs_eq fun arg hmem => isFile_or_flag? hmode hmem, give_choosing hmode, ok_bind, hfiles]
  apply check_eq
  · cases m <;> simp [choosing]
  · cases level <;> simp [choosing]

end Arguments

end CommandLine

/-! ## Records -/

namespace Log

/-- The lines of records. -/
def lines (records : List Record) : String :=
  String.join (records.map Record.line)

/-- What is logged up to a level. -/
theorem text_eq (level : Level) (p : Level → Prop) [DecidablePred p]
    (h : ∀ l : Level, l.rank ≤ level.rank ↔ p l) (records : List Record) :
    text level records = lines (records.filter fun r => p r.level) := by
  have hlevels : upTo level records = records.filter fun r => p r.level := by
    apply List.filter_congr
    intro r hmem
    exact decide_eq_decide.mpr (h r.level)
  rw [text, lines, hlevels]

/-- At the level of errors only these are logged. -/
theorem text_error (records : List Record) :
    text .error records = lines (records.filter fun r => r.level = .error) := by
  apply text_eq .error (· = .error)
  intro l
  cases l <;> decide

/-- At the level of warnings, errors and warnings are. -/
theorem text_warning (records : List Record) :
    text .warning records =
      lines (records.filter fun r => r.level = .error ∨ r.level = .warning) := by
  apply text_eq .warning fun l => l = .error ∨ l = .warning
  intro l
  cases l <;> decide

/-- At the level of details everything is. -/
theorem text_detail (records : List Record) : text .detail records = lines records := by
  have hall : ∀ l : Level, l.rank ≤ Level.detail.rank ↔ True := by
    intro l
    cases l <;> decide
  rw [text_eq .detail (fun _ => True) hall, List.filter_eq_self.mpr (by simp)]

end Log

/-! ## Runs -/

/-- A run with an output that takes everything deals with all files. -/
theorem Batch.run_unlimited (mode : Mode) (source : FileSource) (paths : List String) :
    run mode source (.start .unlimited) paths =
      .ok ⟨(shares mode source paths).summary, none, (shares mode source paths).bytes⟩ := by
  have hwrite := @run_eq_write mode source (.start .unlimited) paths
  cases hrun : run mode source (.start .unlimited) paths with
  | ok p =>
    rw [hrun] at hwrite
    simpa [Progress.start, Sink.write, Sink.unlimited, Except.map] using hwrite
  | error stop =>
    rw [hrun] at hwrite
    simp [Progress.start, Sink.write, Sink.unlimited, Except.map] at hwrite

namespace Program

open CommandLine

variable {source : FileSource} {mode : Batch.Mode} {front back : List String}

/-- A run for a mode and a level. -/
theorem run_choosing (hmode : (front ++ back).filter (¬ IsFile ·) = mode.args)
    (program : String) (level : Log.Level) {p : Batch.Progress}
    (hrun : Batch.run mode source (.start .unlimited) ((front ++ back).filter (IsFile ·)) = .ok p) :
    run source .unlimited (program :: (front ++ (level.args ++ back))) =
      ⟨0, p.sink.taken, Log.text level (records p.summary)⟩ := by
  simp only [run, ofArgs_choosing hmode, runLine, mode_choosing, logLevel_choosing, hrun]

/-- Three runs over the same files in the same mode, with a flag for it anywhere among the files,
write the same to an output that takes everything, and all of them succeed.  With `-v` all records
of the run are logged, without a flag the errors and warnings among them, and with `-q` only the
errors. -/
theorem verbosity_filters (source : FileSource) (program : String) (mode : Batch.Mode)
    (front back : List String) (hmode : (front ++ back).filter (¬ IsFile ·) = mode.args) :
    ∃ p, Batch.run mode source (.start .unlimited) ((front ++ back).filter (IsFile ·)) = .ok p ∧
      run source .unlimited (program :: (front ++ back)) =
        ⟨0, p.sink.taken, Log.lines
          ((records p.summary).filter fun r => r.level = .error ∨ r.level = .warning)⟩ ∧
      run source .unlimited (program :: (front ++ "-q" :: back)) =
        ⟨0, p.sink.taken, Log.lines ((records p.summary).filter fun r => r.level = .error)⟩ ∧
      run source .unlimited (program :: (front ++ "-v" :: back)) =
        ⟨0, p.sink.taken, Log.lines (records p.summary)⟩ := by
  refine ⟨_, Batch.run_unlimited .., ?_, ?_, ?_⟩
  · rw [← Log.text_warning]
    exact run_choosing hmode program .warning (Batch.run_unlimited ..)
  · rw [← Log.text_error]
    exact run_choosing hmode program .error (Batch.run_unlimited ..)
  · rw [← Log.text_detail]
    exact run_choosing hmode program .detail (Batch.run_unlimited ..)

/-- A file with a byte that is no text, one without a rule and one with a rule. -/
def threeFiles : FileSource
  | "a" => .ok [114, 58, 255]
  | "b" => .ok []
  | "c" => .ok (Text.utf8 "r : 'c' ;")
  | _ => .error .notFound

/-- Runs over these files and one that is not there, with the flags between them. -/
theorem verbosity_filters_rail :
    run threeFiles .unlimited ["p", "x", "a", "--latex", "b", "c"] =
      ⟨0, Text.utf8 "r :\n\t'c' \n", "ERROR can't open file x\n" ++
        " WARN input is not valid UTF-8, invalid bytes replaced path=a\n" ++
        "ERROR a: invalid token '\uFFFD' at 2..5\n"⟩ ∧
    run threeFiles .unlimited ["p", "x", "a", "-q", "--latex", "b", "c"] =
      ⟨0, Text.utf8 "r :\n\t'c' \n", "ERROR can't open file x\n" ++
        "ERROR a: invalid token '\uFFFD' at 2..5\n"⟩ ∧
    run threeFiles .unlimited ["p", "x", "a", "-v", "--latex", "b", "c"] =
      ⟨0, Text.utf8 "r :\n\t'c' \n", "ERROR can't open file x\n" ++
        " WARN input is not valid UTF-8, invalid bytes replaced path=a\n" ++
        "ERROR a: invalid token '\uFFFD' at 2..5\n" ++ "DEBUG no rule found path=b\n" ++
        "DEBUG translating path=c rule=r\n" ++
        "DEBUG done rendered=1 skipped=1 failed=2\n"⟩ := by
  obtain ⟨p, hrun, hplain, hquiet, hverbose⟩ :=
    verbosity_filters threeFiles "p" .rail ["x", "a"] ["--latex", "b", "c"] (by decide)
  obtain rfl := Except.ok.inj (hrun.symm.trans (Batch.run_unlimited ..))
  exact ⟨hplain.trans (by decide +kernel), hquiet.trans (by decide +kernel),
    hverbose.trans (by decide +kernel)⟩

end Program

end Railroad
