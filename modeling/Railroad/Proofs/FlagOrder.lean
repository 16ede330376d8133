import Mathlib.Data.List.Nodup
import Railroad.Proofs.Flags

/-!
# Flags in any order

Flags may be spelled in either way and stand in any order, before, between and behind the files.
What is taken depends on nothing but which flags there are and on the order of the files.

Main definitions:

- Definition {lit}`CommandLine.Spells`: arguments that spell out some flags.
- Definition {lit}`CommandLine.Mixes`: arguments that hold flags and files.

Main results:

- Theorem {lit}`CommandLine.foldlM_give_eq_ok_iff`: flags that are given one after the other.
- Theorem {lit}`CommandLine.ofArgs_eq_ok_iff`: which flags and files are taken.
- Theorem {lit}`CommandLine.ofArgs_append_dashes`: what stands behind two dashes.
- Theorem {lit}`CommandLine.ofArgs_in_any_order`: flags and files in any order, and more files
  behind two dashes.
-/

namespace Railroad

/-! ## Sets of flags -/

/-- Whether a flag is given.  The one that asks for help never is. -/
def Flags.has (flags : Flags) : CommandLine.Flag → Bool
  | .latex => flags.latex
  | .ast => flags.ast
  | .quiet => flags.quiet
  | .verbose => flags.verbose
  | .help => false

/-- The flags that are given, each of them once. -/
def Flags.toList (flags : Flags) : List CommandLine.Flag :=
  [.latex, .ast, .quiet, .verbose].filter flags.has

/-- The set of the flags in a list. -/
def Flags.ofList (given : List CommandLine.Flag) : Flags :=
  ⟨.latex ∈ given, .ast ∈ given, .quiet ∈ given, .verbose ∈ given⟩

@[simp] theorem Flags.ofList_nil : Flags.ofList [] = CommandLine.noFlags := rfl

@[simp] theorem Flags.ofList_toList (flags : Flags) : Flags.ofList flags.toList = flags := by
  simp [ofList, toList, has]

/-- The order of flags makes no difference to their set. -/
theorem Flags.ofList_eq_of_perm {given given' : List CommandLine.Flag}
    (h : given.Perm given') : Flags.ofList given = Flags.ofList given' := by
  simp only [ofList, h.mem_iff]

theorem Flags.nodup_toList (flags : Flags) : flags.toList.Nodup :=
  List.Nodup.filter _ (by decide)

/-- The flag that asks for help is in no set. -/
theorem Flags.help_not_mem_toList (flags : Flags) : .help ∉ flags.toList := by
  simp [toList]

namespace CommandLine

/-- A flag is given if it has not been given before. -/
theorem give_ofList (given : List Flag) (flag : Flag) :
    give (.ofList given) flag =
      if flag = .help then .error .help
      else if flag ∈ given then .error .conflict
      else .ok (.ofList (given ++ [flag])) := by
  cases flag with
  | latex | ast | quiet | verbose => simp [give, Flags.ofList]
  | help => rfl

/-- Flags are given one after the other, if none of them is given twice. -/
theorem foldlM_give_ofList {before given : List Flag} {flags : Flags} (hbefore : before.Nodup) :
    given.foldlM give (.ofList before) = .ok flags ↔
      .help ∉ given ∧ (before ++ given).Nodup ∧ flags = .ofList (before ++ given) := by
  -- What has been given so far are the flags in front, so each step moves one flag there.
  induction given generalizing before with
  | nil => simp [pure, Except.pure, hbefore, eq_comm]
  | cons flag given ih =>
    rw [List.foldlM_cons, give_ofList]
    by_cases hhelp : flag = .help
    · rw [if_pos hhelp, error_bind]
      simp [hhelp]
    · by_cases hmem : flag ∈ before
      · have htwice : ¬ (before ++ flag :: given).Nodup := fun hnodup =>
          List.disjoint_of_nodup_append hnodup hmem List.mem_cons_self
        rw [if_neg hhelp, if_pos hmem, error_bind]
        simp [htwice]
      · have hfront : (before ++ [flag]).Nodup :=
          hbefore.append (List.nodup_singleton flag) (by simpa using hmem)
        rw [if_neg hhelp, if_neg hmem, ok_bind, ih hfront, ← List.append_cons, List.mem_cons, not_or]
        simp [Ne.symm hhelp]

/-- The flags of a set are given in any order, and nothing else is. -/
theorem foldlM_give_eq_ok_iff {given : List Flag} {flags : Flags} :
    given.foldlM give noFlags = .ok flags ↔ given.Perm flags.toList := by
  rw [← Flags.ofList_nil, foldlM_give_ofList List.nodup_nil, List.nil_append]
  constructor
  · rintro ⟨hhelp, hnodup, rfl⟩
    rw [List.perm_ext_iff_of_nodup hnodup (Flags.nodup_toList _)]
    intro flag
    cases flag with
    | latex | ast | quiet | verbose => simp [Flags.toList, Flags.has, Flags.ofList]
    | help => simp [hhelp, Flags.help_not_mem_toList]
  · intro hperm
    refine ⟨?_, hperm.nodup_iff.mpr flags.nodup_toList, ?_⟩
    · rw [hperm.mem_iff]
      exact flags.help_not_mem_toList
    · rw [Flags.ofList_eq_of_perm hperm, Flags.ofList_toList]

/-! ## What the flags mean -/

/-- Rail text is asked for by its flag, if not both modes are. -/
theorem mode_eq_rail_iff {line : CommandLine} (hmode : ¬ (line.flags.latex ∧ line.flags.ast)) :
    line.mode = .rail ↔ line.flags.latex := by
  unfold mode
  grind

/-- The tree is asked for by its flag. -/
theorem mode_eq_tree_iff {line : CommandLine} : line.mode = .tree ↔ line.flags.ast := by
  unfold mode
  grind

/-- Errors alone are asked for by the flag for quiet. -/
theorem logLevel_eq_error_iff {line : CommandLine} :
    line.logLevel = .error ↔ line.flags.quiet := by
  unfold logLevel
  grind

/-- All records are asked for by their flag, if not both levels are. -/
theorem logLevel_eq_detail_iff {line : CommandLine}
    (hlevel : ¬ (line.flags.quiet ∧ line.flags.verbose)) :
    line.logLevel = .detail ↔ line.flags.verbose := by
  unfold logLevel
  grind

/-! ## Flags and files -/

section Arguments

variable {program : String} {args : List String} {line : CommandLine}

/-- Files and flags are taken in whatever order they stand, if no flag is given twice and none
excludes another. -/
theorem ofArgs_eq_ok_iff (hargs : ∀ arg ∈ args, IsFile arg ∨ (flag? arg).isSome) :
    ofArgs (program :: args) = .ok line ↔
      (args.filterMap flag?).Perm line.flags.toList ∧ args.filter (IsFile ·) = line.files ∧
        ¬ (line.flags.latex ∧ line.flags.ast) ∧ ¬ (line.flags.quiet ∧ line.flags.verbose) := by
  rw [ofArgs_eq hargs, bind_eq_ok_iff]
  simp only [foldlM_give_eq_ok_iff, check_eq_ok_iff]
  constructor
  · rintro ⟨flags, hperm, rfl, -, hexcluded⟩
    exact ⟨hperm, rfl, hexcluded⟩
  · rintro ⟨hperm, hfiles, hexcluded⟩
    exact ⟨line.flags, hperm, by rw [hfiles], empty_not_mem_filter args, hexcluded⟩

/-- Behind two dashes, all arguments are files. -/
theorem ofArgs_append_dashes (hargs : ∀ arg ∈ args, IsFile arg ∨ (flag? arg).isSome)
    (h : ofArgs (program :: args) = .ok line) {more : List String} (hmore : "" ∉ more) :
    ofArgs (program :: (args ++ "--" :: more)) =
      .ok { line with files := line.files ++ more } := by
  have hdashes : "--" ∉ args := fun hmem => ne_dashes (hargs "--" hmem) rfl
  have hhead : (args ++ "--" :: more).head? ≠ some "-latex" := by
    cases args with
    | nil => simp
    | cons arg args => simpa using head?_ne_latex hargs
  rw [ofArgs_of_head?_ne (head?_ne_latex hargs), parse, bind_eq_ok_iff] at h
  obtain ⟨taken, htaken, hcheck⟩ := h
  obtain ⟨rfl, hnames, hexcluded⟩ := check_eq_ok_iff.mp hcheck
  rw [ofArgs_of_head?_ne hhead, parse, takeArgs_append hdashes, htaken, ok_bind, takeArgs,
    if_pos rfl, ok_bind]
  exact check_eq_ok_iff.mpr ⟨rfl, by simp [hnames, hmore], hexcluded⟩

end Arguments

/-- Arguments that spell out flags, each of them once, in any order. -/
def Spells (flags : Flags) (spelled : List String) : Prop :=
  (spelled.map flag?).Perm (flags.toList.map some)

instance (flags : Flags) : DecidablePred (Spells flags) :=
  fun _ => inferInstanceAs (Decidable (List.Perm _ _))

/-- Arguments that hold the spellings of flags and files, in any order but that of the files. -/
structure Mixes (spelled files args : List String) : Prop where
  perm : args.Perm (spelled ++ files)
  inOrder : files.Sublist args

section Mixes

variable {flags : Flags} {spelled files args : List String}

/-- Each spelling is that of a flag. -/
theorem Spells.isSome_flag? (h : Spells flags spelled) {arg : String} (hmem : arg ∈ spelled) :
    (flag? arg).isSome := by
  obtain ⟨flag, -, hflag⟩ := List.mem_map.mp (h.mem_iff.mp (List.mem_map_of_mem hmem))
  rw [← hflag, Option.isSome_some]

/-- The flags that are spelled out are the given ones. -/
theorem Spells.perm_filterMap (h : Spells flags spelled) :
    (spelled.filterMap flag?).Perm flags.toList := by
  have hflags := h.filterMap id
  rw [List.filterMap_map, List.filterMap_map] at hflags
  simpa using hflags

/-- Each argument of the mixture is a file or a flag. -/
theorem Mixes.isFile_or_flag? (h : Mixes spelled files args) (hspells : Spells flags spelled)
    (hfiles : ∀ file ∈ files, IsFile file) :
    ∀ arg ∈ args, IsFile arg ∨ (flag? arg).isSome := by
  intro arg hmem
  rcases List.mem_append.mp (h.perm.mem_iff.mp hmem) with hspelled | hfile
  · exact .inr (hspells.isSome_flag? hspelled)
  · exact .inl (hfiles arg hfile)

/-- The flags among the arguments are the given ones. -/
theorem Mixes.perm_filterMap (h : Mixes spelled files args) (hspells : Spells flags spelled)
    (hfiles : ∀ file ∈ files, IsFile file) :
    (args.filterMap flag?).Perm flags.toList := by
  have hnone : files.filterMap flag? = [] :=
    List.filterMap_eq_nil_iff.mpr fun file hmem => (hfiles file hmem).flag?_eq_none
  have hperm := h.perm.filterMap flag?
  rw [List.filterMap_append, hnone, List.append_nil] at hperm
  exact hperm.trans hspells.perm_filterMap

/-- The files among the arguments are the given ones. -/
theorem Mixes.filter_isFile (h : Mixes spelled files args) (hspells : Spells flags spelled)
    (hfiles : ∀ file ∈ files, IsFile file) : args.filter (IsFile ·) = files := by
  have hspelled : spelled.filter (IsFile ·) = [] := by
    rw [List.filter_eq_nil_iff]
    intro arg hmem
    obtain ⟨flag, hflag⟩ := Option.isSome_iff_exists.mp (hspells.isSome_flag? hmem)
    simpa using not_isFile_of_flag? hflag
  have hself : files.filter (IsFile ·) = files :=
    List.filter_eq_self.mpr fun file hmem => decide_eq_true (hfiles file hmem)
  -- The given files stand among the arguments in their order, and no other file does.
  have hsublist := h.inOrder.filter (IsFile ·)
  have hlength := (h.perm.filter (IsFile ·)).length_eq
  rw [List.filter_append, hspelled, List.nil_append] at hlength
  rw [← hsublist.eq_of_length hlength.symm, hself]

/-- Flags that do not exclude each other are taken in any order and in either spelling, and so are
files among them, which keep their order.  Behind two dashes more files can follow, whatever they
look like.  The flags alone say what is rendered and how much is logged. -/
theorem ofArgs_in_any_order (hmode : ¬ (flags.latex ∧ flags.ast))
    (hlevel : ¬ (flags.quiet ∧ flags.verbose)) (hspells : Spells flags spelled)
    (hfiles : ∀ file ∈ files, IsFile file) (hmixes : Mixes spelled files args)
    (program : String) :
    ofArgs (program :: args) = .ok ⟨flags, files⟩ ∧
      (∀ more, "" ∉ more →
        ofArgs (program :: (args ++ "--" :: more)) = .ok ⟨flags, files ++ more⟩) ∧
      ∀ line : CommandLine, line.flags = flags →
        (line.mode = .rail ↔ flags.latex) ∧ (line.mode = .tree ↔ flags.ast) ∧
          (line.logLevel = .error ↔ flags.quiet) ∧ (line.logLevel = .detail ↔ flags.verbose) := by
  have hargs := hmixes.isFile_or_flag? hspells hfiles
  have htaken : ofArgs (program :: args) = .ok ⟨flags, files⟩ :=
    (ofArgs_eq_ok_iff hargs).mpr ⟨hmixes.perm_filterMap hspells hfiles,
      hmixes.filter_isFile hspells hfiles, hmode, hlevel⟩
  refine ⟨htaken, ?_, ?_⟩
  · intro more hmore
    exact ofArgs_append_dashes hargs htaken hmore
  · rintro line rfl
    exact ⟨mode_eq_rail_iff hmode, mode_eq_tree_iff, logLevel_eq_error_iff,
      logLevel_eq_detail_iff hlevel⟩

/-- A file that is named twice, one dash, and both spellings of flags; behind two dashes, what
would be a flag in front of them, two dashes again, and the old spelling. -/
theorem ofArgs_in_any_order_rail :
    ofArgs ["railroad", "a", "--verbose", "-", "--latex", "a"] =
        .ok ⟨⟨true, false, false, true⟩, ["a", "-", "a"]⟩ ∧
      ofArgs ["railroad", "a", "-", "--latex", "-v", "a", "--", "-q", "--", "-latex"] =
        .ok ⟨⟨true, false, false, true⟩, ["a", "-", "a", "-q", "--", "-latex"]⟩ := by
  have hfiles : ∀ file ∈ ["a", "-", "a"], IsFile file := by decide
  have hspells : Spells ⟨true, false, false, true⟩ ["--verbose", "--latex"] := by decide
  have hspells' : Spells ⟨true, false, false, true⟩ ["--latex", "-v"] := by decide
  have hmixes : Mixes ["--verbose", "--latex"] ["a", "-", "a"]
      ["a", "--verbose", "-", "--latex", "a"] := ⟨by decide, by decide⟩
  have hmixes' : Mixes ["--latex", "-v"] ["a", "-", "a"]
      ["a", "-", "--latex", "-v", "a"] := ⟨by decide, by decide⟩
  refine ⟨(ofArgs_in_any_order ?_ ?_ hspells hfiles hmixes "railroad").1,
    (ofArgs_in_any_order ?_ ?_ hspells' hfiles hmixes' "railroad").2.1
      ["-q", "--", "-latex"] (by decide)⟩ <;> decide

end Mixes

end CommandLine

end Railroad
