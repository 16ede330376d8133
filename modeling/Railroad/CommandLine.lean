import Railroad.Batch

/-!
# The command line

The arguments of the program are flags and files in any order.  A flag is written
with two dashes and its name, or some of them with one dash and a letter, where
several letters may share a dash.  Behind two dashes alone everything is a file.

Main definitions:

- Definition {lit}`CommandLine.normalize`: the old spelling of one flag.
- Definition {lit}`CommandLine.parse`: the flags and files of arguments.
- Definition {lit}`CommandLine.ofArgs`: both, for arguments behind a program name.
-/

namespace Railroad

/-- The flags that are given. -/
structure Flags where
  latex : Bool
  ast : Bool
  quiet : Bool
  verbose : Bool
deriving DecidableEq, Repr, Inhabited

/-- The flags and files of a command line. -/
structure CommandLine where
  flags : Flags
  files : List String
deriving DecidableEq, Repr, Inhabited

namespace CommandLine

/-- Why arguments are not taken. -/
inductive Refusal where
  /-- Two flags exclude each other, or a flag is given twice. -/
  | conflict
  /-- There is no such flag. -/
  | unknownFlag
  /-- The flag takes no value. -/
  | unwantedValue
  /-- The name of a file is empty. -/
  | emptyName
  /-- Help is wanted instead. -/
  | help
deriving DecidableEq, Repr, Inhabited

/-! ## Flags -/

/-- A flag that can be given. -/
inductive Flag where
  | latex
  | ast
  | quiet
  | verbose
  | help
deriving DecidableEq, Repr, Inhabited

/-- The flag with a name. -/
def Flag.ofName? : String → Option Flag
  | "latex" => some latex
  | "ast" => some ast
  | "quiet" => some quiet
  | "verbose" => some verbose
  | "help" => some help
  | _ => none

/-- The flag with a letter. -/
def Flag.ofLetter? : Char → Option Flag
  | 'q' => some quiet
  | 'v' => some verbose
  | 'h' => some help
  | _ => none

/-- No flag given. -/
def noFlags : Flags :=
  ⟨false, false, false, false⟩

/-- Gives one more flag.  No flag can be given twice. -/
def give (flags : Flags) : Flag → Except Refusal Flags
  | .latex => if flags.latex then .error .conflict else .ok { flags with latex := true }
  | .ast => if flags.ast then .error .conflict else .ok { flags with ast := true }
  | .quiet => if flags.quiet then .error .conflict else .ok { flags with quiet := true }
  | .verbose => if flags.verbose then .error .conflict else .ok { flags with verbose := true }
  | .help => .error .help

/-! ## Arguments -/

/-- Gives a flag behind some files, whose names must not be empty. -/
def takeFlag (line : CommandLine) (flag : Flag) : Except Refusal CommandLine :=
  if line.files.contains "" then .error .emptyName
  else do return { line with flags := ← give line.flags flag }

/-- Takes an argument that begins with two dashes; `name` is what follows them.  A
value is set off by an equals sign, and no flag takes one. -/
def takeNamed (line : CommandLine) (name : List Char) : Except Refusal CommandLine :=
  match Flag.ofName? (String.ofList (name.takeWhile (· != '='))) with
  | none => .error .unknownFlag
  | some flag => if name.contains '=' then .error .unwantedValue else takeFlag line flag

/-- Takes the letters of an argument that begins with one dash. -/
def takeLetters (line : CommandLine) : List Char → Except Refusal CommandLine
  | [] => .ok line
  | c :: cs =>
    match Flag.ofLetter? c with
    | none => .error .unknownFlag
    | some flag => do takeLetters (← takeFlag line flag) cs

/-- Takes an argument that is not two dashes alone.  One dash alone is a file. -/
def takeArg (line : CommandLine) (arg : String) : Except Refusal CommandLine :=
  match arg.toList with
  | '-' :: '-' :: name => takeNamed line name
  | '-' :: c :: cs => takeLetters line (c :: cs)
  | _ => .ok { line with files := line.files ++ [arg] }

/-- Takes arguments one after the other. -/
def takeArgs (line : CommandLine) : List String → Except Refusal CommandLine
  | [] => .ok line
  | arg :: args =>
    if arg = "--" then .ok { line with files := line.files ++ args }
    else do takeArgs (← takeArg line arg) args

/-- Checks what can only be seen when all arguments have been taken. -/
def check (line : CommandLine) : Except Refusal CommandLine :=
  if line.files.contains "" then .error .emptyName
  else if line.flags.latex ∧ line.flags.ast then .error .conflict
  else if line.flags.quiet ∧ line.flags.verbose then .error .conflict
  else .ok line

/-- The flags and files of arguments. -/
def parse (args : List String) : Except Refusal CommandLine := do
  check (← takeArgs ⟨noFlags, []⟩ args)

/-- Takes the old spelling `-latex` for the flag of that name, where it is the first
argument behind the program name.  If it is the only one, it is a file. -/
def normalize : List String → List String
  | [program, "-latex"] => [program, "--", "-latex"]
  | program :: "-latex" :: args => program :: "--latex" :: args
  | args => args

/-- The flags and files of arguments behind a program name, which may be missing. -/
def ofArgs (args : List String) : Except Refusal CommandLine :=
  parse ((normalize args).drop 1)

/-! ## What the flags mean -/

/-- What the rules are rendered to. -/
def mode (line : CommandLine) : Batch.Mode :=
  if line.flags.ast then .tree else if line.flags.latex then .rail else .diagram

/-- Up to which level the log is written. -/
def logLevel (line : CommandLine) : Log.Level :=
  if line.flags.quiet then .error else if line.flags.verbose then .detail else .warning

end CommandLine

end Railroad
