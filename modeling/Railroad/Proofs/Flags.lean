import Railroad.CommandLine
import Railroad.Proofs.Failing

/-!
# Flags among files

The order in which flags and files stand to each other does not matter: the files are taken in
their own order, and so are the flags.

Main definitions:

- Definition {lit}`CommandLine.IsFile`: the arguments that are files wherever they stand.
- Definition {lit}`CommandLine.flag?`: the flag that an argument spells out.

Main results:

- Theorem {lit}`CommandLine.takeArgs_eq`: the flags and files of arguments.
- Theorem {lit}`CommandLine.takeArgs_append`: arguments in two parts.
- Theorem {lit}`CommandLine.ofArgs_eq`: the same behind a program name.
-/

namespace Railroad.CommandLine

/-- The arguments that are files wherever they stand: those that do not begin with a dash, and
one dash alone. -/
def IsFile (arg : String) : Prop :=
  arg ≠ "" ∧ (arg.toList.head? ≠ some '-' ∨ arg = "-")

instance : DecidablePred IsFile :=
  fun _ => inferInstanceAs (Decidable (_ ∧ _))

/-- The flag that an argument spells out, except for the one that asks for help. -/
def flag? : String → Option Flag
  | "--latex" => some .latex
  | "--ast" => some .ast
  | "--quiet" | "-q" => some .quiet
  | "--verbose" | "-v" => some .verbose
  | _ => none

/-! ## One argument -/

/-- The arguments that spell out a flag. -/
theorem flag?_eq_some {arg : String} {flag : Flag} (h : flag? arg = some flag) :
    (arg = "--latex" ∧ flag = .latex) ∨ (arg = "--ast" ∧ flag = .ast) ∨
      ((arg = "--quiet" ∨ arg = "-q") ∧ flag = .quiet) ∨
      ((arg = "--verbose" ∨ arg = "-v") ∧ flag = .verbose) := by
  unfold flag? at h
  split at h <;> simp_all

/-- A file spells out no flag. -/
theorem IsFile.flag?_eq_none {arg : String} (h : IsFile arg) : flag? arg = none := by
  rw [Option.eq_none_iff_forall_ne_some]
  intro flag hflag
  rcases flag?_eq_some hflag with ⟨rfl, -⟩ | ⟨rfl, -⟩ | ⟨rfl | rfl, -⟩ | ⟨rfl | rfl, -⟩ <;>
    exact absurd h (by decide)

/-- What spells out a flag is no file. -/
theorem not_isFile_of_flag? {arg : String} {flag : Flag} (h : flag? arg = some flag) :
    ¬ IsFile arg := by
  intro hfile
  rw [hfile.flag?_eq_none] at h
  cases h

/-- Neither kind of argument is two dashes alone. -/
theorem ne_dashes {arg : String} (h : IsFile arg ∨ (flag? arg).isSome) : arg ≠ "--" := by
  rintro rfl
  revert h
  decide

/-- A file is put behind those that were taken before. -/
theorem takeArg_of_isFile {line : CommandLine} {arg : String} (h : IsFile arg) :
    takeArg line arg = .ok { line with files := line.files ++ [arg] } := by
  obtain ⟨-, hhead | rfl⟩ := h
  · unfold takeArg
    split
    · rename_i hlist
      exact absurd (congrArg List.head? hlist) hhead
    · rename_i hlist
      exact absurd (congrArg List.head? hlist) hhead
    · rfl
  · rfl

/-- A letter alone is taken like the flag that it is short for. -/
theorem takeLetters_singleton {line : CommandLine} {c : Char} {flag : Flag}
    (h : Flag.ofLetter? c = some flag) : takeLetters line [c] = takeFlag line flag := by
  simp only [takeLetters, h]
  cases takeFlag line flag <;> rfl

/-- Both spellings of a flag are taken alike. -/
theorem takeArg_of_flag? {line : CommandLine} {arg : String} {flag : Flag}
    (h : flag? arg = some flag) : takeArg line arg = takeFlag line flag := by
  rcases flag?_eq_some h with ⟨rfl, rfl⟩ | ⟨rfl, rfl⟩ | ⟨rfl | rfl, rfl⟩ | ⟨rfl | rfl, rfl⟩
  · rfl
  · rfl
  · rfl
  · exact takeLetters_singleton (c := 'q') rfl
  · rfl
  · exact takeLetters_singleton (c := 'v') rfl

/-! ## All arguments -/

/-- The files of arguments are taken in order, and so are the flags that are spelled out among
them. -/
theorem takeArgs_eq {line : CommandLine} {args : List String} (hfiles : "" ∉ line.files)
    (hargs : ∀ arg ∈ args, IsFile arg ∨ (flag? arg).isSome) :
    takeArgs line args = do
      let flags ← (args.filterMap flag?).foldlM give line.flags
      return ⟨flags, line.files ++ args.filter (IsFile ·)⟩ := by
  induction args generalizing line with
  | nil => simp [takeArgs, pure, Except.pure]
  | cons arg args ih =>
    have hrest : ∀ other ∈ args, IsFile other ∨ (flag? other).isSome :=
      fun other hmem => hargs other (List.mem_cons_of_mem _ hmem)
    have harg := hargs arg List.mem_cons_self
    rw [takeArgs, if_neg (ne_dashes harg)]
    rcases harg with hfile | hflag
    · have hnames : "" ∉ line.files ++ [arg] := by
        simp [hfiles, Ne.symm hfile.1]
      rw [takeArg_of_isFile hfile, ok_bind, ih hnames hrest, List.filterMap_cons_none
        hfile.flag?_eq_none, List.filter_cons_of_pos (by simpa using hfile), List.append_assoc]
      rfl
    · obtain ⟨flag, hflag⟩ := Option.isSome_iff_exists.mp hflag
      rw [takeArg_of_flag? hflag, takeFlag, if_neg (by simpa using hfiles),
        List.filterMap_cons_some hflag, List.foldlM_cons,
        List.filter_cons_of_neg (by simpa using not_isFile_of_flag? hflag)]
      cases give line.flags flag with
      | error refusal => rfl
      | ok flags => exact ih hfiles hrest

/-- Arguments behind others are taken where the others have left off, unless two dashes among
these make files of all that follows. -/
theorem takeArgs_append {line : CommandLine} {args : List String} (hargs : "--" ∉ args)
    (more : List String) :
    takeArgs line (args ++ more) = takeArgs line args >>= fun taken => takeArgs taken more := by
  induction args generalizing line with
  | nil => rfl
  | cons arg args ih =>
    rw [List.mem_cons, not_or] at hargs
    rw [List.cons_append, takeArgs, takeArgs, if_neg (Ne.symm hargs.1), if_neg (Ne.symm hargs.1)]
    cases takeArg line arg with
    | error refusal => rfl
    | ok taken => exact ih hargs.2

/-- Arguments whose first is not spelled in the old way stay as they are. -/
theorem normalize_of_head?_ne {program : String} {args : List String}
    (h : args.head? ≠ some "-latex") : normalize (program :: args) = program :: args := by
  unfold normalize
  split
  · rename_i heq
    obtain ⟨-, rfl⟩ := List.cons.inj heq
    exact absurd rfl h
  · rename_i heq
    obtain ⟨-, rfl⟩ := List.cons.inj heq
    exact absurd rfl h
  · rfl

/-- Such arguments are taken as they are. -/
theorem ofArgs_of_head?_ne {program : String} {args : List String}
    (h : args.head? ≠ some "-latex") : ofArgs (program :: args) = parse args := by
  rw [ofArgs, normalize_of_head?_ne h, List.drop_one, List.tail_cons]

/-- Files and flags that are spelled out are not spelled in the old way. -/
theorem head?_ne_latex {args : List String}
    (hargs : ∀ arg ∈ args, IsFile arg ∨ (flag? arg).isSome) : args.head? ≠ some "-latex" := by
  intro hhead
  have hold : ¬ (IsFile "-latex" ∨ (flag? "-latex").isSome) := by decide
  exact hold (hargs "-latex" (List.mem_of_head? hhead))

/-- The flags and files behind a program name, of which only the flags can be refused. -/
theorem ofArgs_eq {program : String} {args : List String}
    (hargs : ∀ arg ∈ args, IsFile arg ∨ (flag? arg).isSome) :
    ofArgs (program :: args) = (args.filterMap flag?).foldlM give noFlags >>= fun flags =>
      check ⟨flags, args.filter (IsFile ·)⟩ := by
  rw [ofArgs_of_head?_ne (head?_ne_latex hargs), parse, takeArgs_eq List.not_mem_nil hargs]
  cases (args.filterMap flag?).foldlM give noFlags <;> rfl

/-- The checks are passed where all files have names and no flags exclude each other. -/
theorem check_eq_ok_iff {line line' : CommandLine} :
    check line = .ok line' ↔ line' = line ∧ "" ∉ line.files ∧
      ¬ (line.flags.latex ∧ line.flags.ast) ∧ ¬ (line.flags.quiet ∧ line.flags.verbose) := by
  constructor
  · intro h
    unfold check at h
    split at h
    · cases h
    · rename_i hnames
      split at h
      · cases h
      · rename_i hmode
        split at h
        · cases h
        · rename_i hlevel
          cases h
          exact ⟨rfl, by simpa using hnames, hmode, hlevel⟩
  · rintro ⟨rfl, hnames, hmode, hlevel⟩
    rw [check, if_neg (by simpa using hnames), if_neg hmode, if_neg hlevel]

/-- Files wherever they stand have names. -/
theorem empty_not_mem_filter (args : List String) : "" ∉ args.filter (IsFile ·) := by
  rw [List.mem_filter]
  rintro ⟨-, hfile⟩
  exact (of_decide_eq_true hfile).1 rfl

/-- Files have names, so that only flags can exclude each other. -/
theorem check_eq {flags : Flags} (args : List String)
    (hmode : ¬ (flags.latex ∧ flags.ast)) (hlevel : ¬ (flags.quiet ∧ flags.verbose)) :
    check ⟨flags, args.filter (IsFile ·)⟩ = .ok ⟨flags, args.filter (IsFile ·)⟩ :=
  check_eq_ok_iff.mpr ⟨rfl, empty_not_mem_filter args, hmode, hlevel⟩

end Railroad.CommandLine
