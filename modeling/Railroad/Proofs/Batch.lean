import Mathlib.Control.Monad.Basic
import Mathlib.Logic.Basic
import Railroad.Batch
import Railroad.Proofs.Failing

/-!
# Runs over files add up

What a file adds to a run does not depend on the files around it.  A run offers to its
output what each file adds, in order, which is the same as offering all of it at once.
So an output that takes everything gets the sum of what the files add, and one with a
limit gets as much of it as fits.

Main definitions:

- Definition {lit}`Batch.share`: what a file adds to every run.
- Definition {lit}`Batch.outcome`: what is seen of a run from outside.

Main results:

- Theorem {lit}`Batch.run_eq_write`: a run over files is one write of what they add.
- Theorem {lit}`Batch.outcomes_add_up`: the summaries and the outputs of runs add up.
- Theorem {lit}`Batch.outcome_limited`: a run whose output takes a number of bytes.
-/

namespace Railroad

/-! ## Outputs -/

/-- The bytes of a text are those of its parts in a row. -/
theorem Text.utf8_append (s t : String) : utf8 (s ++ t) = utf8 s ++ utf8 t := by
  rw [utf8, String.toList_append, List.flatMap_append]
  rfl

namespace Sink

/-- An output takes bytes in two pieces as it takes them in one. -/
theorem write_append (sink : Sink) (bytes more : List UInt8) :
    sink.write (bytes ++ more) = (do
      let sink ← sink.write bytes
      sink.write more) := by
  rcases sink with ⟨_ | ⟨room, reason⟩, taken⟩
  · simp only [write, ok_bind, List.append_assoc]
  · simp only [write, List.length_append]
    by_cases hfirst : bytes.length ≤ room
    · have hroom : bytes.length + more.length ≤ room ↔ more.length ≤ room - bytes.length := by
        omega
      rw [if_pos hfirst, ok_bind, if_congr hroom rfl rfl]
      simp only [Nat.sub_sub, List.append_assoc, List.take_append, List.take_of_length_le hfirst]
    · rw [if_neg hfirst, if_neg (by omega), error_bind,
        List.take_append_of_le_length (by omega)]

/-- An output takes no bytes without refusing. -/
theorem write_nil (sink : Sink) : sink.write [] = .ok sink := by
  rcases sink with ⟨_ | limit, taken⟩ <;> simp [write]

/-- A line is taken as its bytes are. -/
theorem writeLine_eq (sink : Sink) (text : String) :
    sink.writeLine text = sink.write (Text.utf8 (text ++ "\n")) := by
  rw [writeLine, Text.utf8_append, write_append]

end Sink

namespace Batch

variable {mode : Mode} {source : FileSource}

/-! ## What files add to a run -/

/-- What comes of two lists of files, one behind the other. -/
def Summary.append (s t : Summary) : Summary :=
  ⟨s.rendered + t.rendered, s.skipped + t.skipped, s.failures ++ t.failures, s.log ++ t.log⟩

instance : Append Summary := ⟨Summary.append⟩

theorem Summary.append_eq (s t : Summary) :
    s ++ t = ⟨s.rendered + t.rendered, s.skipped + t.skipped, s.failures ++ t.failures,
      s.log ++ t.log⟩ :=
  rfl

theorem Summary.append_assoc (s t u : Summary) : s ++ t ++ u = s ++ (t ++ u) := by
  simp only [append_eq, Nat.add_assoc, List.append_assoc]

@[simp] theorem Summary.empty_append (s : Summary) : Summary.empty ++ s = s := by
  simp [append_eq, empty]

@[simp] theorem Summary.append_empty (s : Summary) : s ++ Summary.empty = s := by
  simp [append_eq, empty]

/-- What is added to a run: what comes of files, and bytes of its output. -/
structure Share where
  summary : Summary
  bytes : List UInt8
deriving DecidableEq, Repr, Inhabited

/-- What a file adds to a run: the line of its rendered rule, or that it holds no rule, or
its failure. -/
def share (mode : Mode) (source : FileSource) (path : String) : Share :=
  match convert mode source path with
  | (.ok (some text), log) => ⟨⟨1, 0, [], log⟩, Text.utf8 (text ++ "\n")⟩
  | (.ok none, log) => ⟨⟨0, 1, [], log ++ [.nothingFound path]⟩, []⟩
  | (.error failure, log) => ⟨⟨0, 0, [failure], log ++ [.failed failure]⟩, []⟩

/-- What files add to a run together. -/
def shares (mode : Mode) (source : FileSource) : List String → Share
  | [] => ⟨.empty, []⟩
  | path :: paths =>
    ⟨(share mode source path).summary ++ (shares mode source paths).summary,
      (share mode source path).bytes ++ (shares mode source paths).bytes⟩

/-! ## Runs -/

/-- What a run that has ended early says about its output. -/
def Stop.refusal (stop : Stop) : Sink.Refusal :=
  ⟨stop.reason, stop.sink⟩

/-- One more file is one write of what it adds. -/
theorem advance_eq_write (p : Progress) (path : String) :
    (advance mode source p path).mapError Stop.refusal =
      (p.sink.write (share mode source path).bytes).map fun sink =>
        ⟨p.summary ++ (share mode source path).summary, sink⟩ := by
  rcases p with ⟨⟨rendered, skipped, failures, log⟩, sink⟩
  unfold advance share
  rcases convert mode source path with ⟨failure | _ | text, records⟩
  · simp [Sink.write_nil, Except.map, Summary.append_eq]
  · simp [Sink.write_nil, Except.map, Summary.append_eq]
  · dsimp only
    rw [Sink.writeLine_eq]
    cases sink.write (Text.utf8 (text ++ "\n")) with
    | ok sink => simp [Except.map, Summary.append_eq]
    | error refusal => rfl

/-- A run over files is one write of all that they add. -/
theorem run_eq_write (p : Progress) (paths : List String) :
    (run mode source p paths).mapError Stop.refusal =
      (p.sink.write (shares mode source paths).bytes).map fun sink =>
        ⟨p.summary ++ (shares mode source paths).summary, sink⟩ := by
  induction paths generalizing p with
  | nil => simp [run, shares, Sink.write_nil, Except.map]
  | cons path paths ih =>
    have hrun : run mode source p (path :: paths) =
        advance mode source p path >>= fun p => run mode source p paths := by
      rw [run]
      cases advance mode source p path <;> rfl
    rw [hrun, mapError_bind, advance_eq_write, shares, Sink.write_append]
    simp only [ih]
    cases p.sink.write (share mode source path).bytes with
    | ok sink => simp only [Except.map, ok_bind, Summary.append_assoc]
    | error refusal => rfl

/-! ## What is seen of a run -/

/-- What is seen of a run from outside: its summary and what it has written, or why its
output has refused bytes and what it has taken. -/
def outcome (mode : Mode) (source : FileSource) (sink : Sink) (paths : List String) :
    Except (WriteFailure × List UInt8) (Summary × List UInt8) :=
  match run mode source (.start sink) paths with
  | .ok p => .ok (p.summary, p.sink.taken)
  | .error stop => .error (stop.reason, stop.sink.taken)

/-- A run is seen as the write of all that its files add. -/
theorem outcome_eq (sink : Sink) (paths : List String) :
    outcome mode source sink paths =
      match sink.write (shares mode source paths).bytes with
      | .ok sink => .ok ((shares mode source paths).summary, sink.taken)
      | .error refusal => .error (refusal.reason, refusal.sink.taken) := by
  have hseen : outcome mode source sink paths =
      match (run mode source (.start sink) paths).mapError Stop.refusal with
      | .ok p => .ok (p.summary, p.sink.taken)
      | .error refusal => .error (refusal.reason, refusal.sink.taken) := by
    unfold outcome
    cases run mode source (.start sink) paths <;> rfl
  rw [hseen, run_eq_write]
  cases hwrite : sink.write (shares mode source paths).bytes with
  | ok sink => simp [Progress.start, hwrite, Except.map]
  | error refusal => simp [Progress.start, hwrite, Except.map]

/-- An output that takes everything gets all that files add. -/
theorem outcome_unlimited (paths : List String) :
    outcome mode source .unlimited paths =
      .ok ((shares mode source paths).summary, (shares mode source paths).bytes) := by
  rw [outcome_eq]
  simp [Sink.write, Sink.unlimited]

/-! ## Sums over files -/

/-- What two lists of files add is the sum of what each of them adds. -/
theorem shares_append (paths more : List String) :
    shares mode source (paths ++ more) =
      ⟨(shares mode source paths).summary ++ (shares mode source more).summary,
        (shares mode source paths).bytes ++ (shares mode source more).bytes⟩ := by
  induction paths with
  | nil => simp [shares]
  | cons path paths ih =>
    rw [List.cons_append, shares, ih, shares]
    simp only [Summary.append_assoc, List.append_assoc]

theorem shares_singleton (path : String) : shares mode source [path] = share mode source path := by
  simp [shares]

/-- Each file is counted once. -/
theorem count_share (path : String) :
    (share mode source path).summary.rendered + (share mode source path).summary.skipped +
      (share mode source path).summary.failures.length = 1 := by
  unfold share
  rcases convert mode source path with ⟨failure | _ | text, records⟩ <;> rfl

/-- So is each of some files. -/
theorem count_shares (paths : List String) :
    (shares mode source paths).summary.rendered + (shares mode source paths).summary.skipped +
      (shares mode source paths).summary.failures.length = paths.length := by
  induction paths with
  | nil => rfl
  | cons path paths ih =>
    have hpath := @count_share mode source path
    simp only [shares, Summary.append_eq, List.length_append, List.length_cons]
    omega

/-- The failures stand in the order of the files. -/
theorem failures_shares (paths : List String) :
    (shares mode source paths).summary.failures =
      paths.flatMap fun path => (share mode source path).summary.failures := by
  induction paths with
  | nil => rfl
  | cons path paths ih => simp only [shares, Summary.append_eq, ih, List.flatMap_cons]

/-- So do the texts. -/
theorem bytes_shares (paths : List String) :
    (shares mode source paths).bytes =
      paths.flatMap fun path => (share mode source path).bytes := by
  induction paths with
  | nil => rfl
  | cons path paths ih => simp only [shares, ih, List.flatMap_cons]

/-- With an output that takes everything, runs over two lists of files add up to the run
over both, and the run over a single file says what that file adds to each run.  So every
file is counted once, and the failures and the texts of the files stand in order, each as
if there were no other file. -/
theorem outcomes_add_up (mode : Mode) (source : FileSource) :
    (∀ paths more, ∃ s bytes t bytes',
      outcome mode source .unlimited paths = .ok (s, bytes) ∧
      outcome mode source .unlimited more = .ok (t, bytes') ∧
      outcome mode source .unlimited (paths ++ more) =
        .ok (⟨s.rendered + t.rendered, s.skipped + t.skipped, s.failures ++ t.failures,
          s.log ++ t.log⟩, bytes ++ bytes')) ∧
    (∀ path, outcome mode source .unlimited [path] =
      .ok ((share mode source path).summary, (share mode source path).bytes)) ∧
    ∀ paths, ∃ summary bytes, outcome mode source .unlimited paths = .ok (summary, bytes) ∧
      summary.rendered + summary.skipped + summary.failures.length = paths.length ∧
      summary.failures = (paths.flatMap fun path => (share mode source path).summary.failures) ∧
      bytes = paths.flatMap fun path => (share mode source path).bytes := by
  refine ⟨fun paths more => ?_, fun path => ?_, fun paths => ?_⟩
  · refine ⟨_, _, _, _, outcome_unlimited paths, outcome_unlimited more, ?_⟩
    rw [outcome_unlimited, shares_append]
    rfl
  · rw [outcome_unlimited, shares_singleton]
  · exact ⟨_, _, outcome_unlimited paths, count_shares paths, failures_shares paths,
      bytes_shares paths⟩

/-- A file whose rule breaks off, one without a rule and one with a rule; all others cannot
be read. -/
def mixedFiles : FileSource
  | "broken" => .ok (Text.utf8 "r : (a")
  | "empty" => .ok (Text.utf8 "// nothing")
  | "good" => .ok (Text.utf8 "r : 'é' ;")
  | _ => .error .notFound

/-- The failures of the files that cannot be read or whose rules break off. -/
def mixedFailures : List Failure :=
  [.unreadable "missing" .notFound, .rejected "broken" (.unclosedDelimiter '(' ⟨4, 5⟩)]

/-- Two failures, and then a file that is passed over and one that is rendered, make one run
with the counts and the text of both. -/
theorem outcomes_add_up_mixed :
    outcome .rail mixedFiles .unlimited ["missing", "broken"] =
        .ok (⟨0, 0, mixedFailures, mixedFailures.map .failed⟩, []) ∧
      outcome .rail mixedFiles .unlimited ["empty", "good"] =
        .ok (⟨1, 1, [], [.nothingFound "empty", .found "good" "r"]⟩,
          Text.utf8 "r :\n\t'é' \n") ∧
      outcome .rail mixedFiles .unlimited ["missing", "broken", "empty", "good"] =
        .ok (⟨1, 1, mixedFailures,
          mixedFailures.map .failed ++ [.nothingFound "empty", .found "good" "r"]⟩,
          Text.utf8 "r :\n\t'é' \n") := by
  obtain ⟨s, bytes, t, bytes', hfront, hback, hboth⟩ :=
    (outcomes_add_up .rail mixedFiles).1 ["missing", "broken"] ["empty", "good"]
  have hfailed : outcome .rail mixedFiles .unlimited ["missing", "broken"] =
      .ok (⟨0, 0, mixedFailures, mixedFailures.map .failed⟩, []) := by
    decide +kernel
  have hrendered : outcome .rail mixedFiles .unlimited ["empty", "good"] =
      .ok (⟨1, 1, [], [.nothingFound "empty", .found "good" "r"]⟩,
        Text.utf8 "r :\n\t'é' \n") := by
    decide +kernel
  obtain ⟨rfl, rfl⟩ := Prod.mk.inj (Except.ok.inj (hfront.symm.trans hfailed))
  obtain ⟨rfl, rfl⟩ := Prod.mk.inj (Except.ok.inj (hback.symm.trans hrendered))
  exact ⟨hfailed, hrendered, hboth⟩

/-! ## Outputs with a limit -/

/-- An output that takes `n` bytes gets all that a run writes to an output without limit
if these are not more than `n`, and the run is the same.  Else the run ends with the
reason of the output, which has taken the first `n` bytes. -/
theorem outcome_limited (mode : Mode) (source : FileSource) (paths : List String) :
    ∃ summary full, outcome mode source .unlimited paths = .ok (summary, full) ∧
      ∀ n, outcome mode source (.limited n) paths =
        if full.length ≤ n then .ok (summary, full) else .error (.brokenPipe, full.take n) := by
  refine ⟨_, _, outcome_unlimited paths, fun n => ?_⟩
  rw [outcome_eq]
  by_cases hroom : (shares mode source paths).bytes.length ≤ n
  · simp [Sink.write, Sink.limited, hroom]
  · simp [Sink.write, Sink.limited, hroom]

/-- The text of two files takes 22 bytes.  With room for 18 the limit falls between the two
bytes of a character in the text of the second one. -/
theorem outcome_limited_mixed :
    outcome .rail mixedFiles (.limited 22) ["good", "missing", "good"] =
        .ok (⟨2, 0, [.unreadable "missing" .notFound], [.found "good" "r",
          .failed (.unreadable "missing" .notFound), .found "good" "r"]⟩,
          Text.utf8 "r :\n\t'é' \nr :\n\t'é' \n") ∧
      outcome .rail mixedFiles (.limited 18) ["good", "missing", "good"] =
        .error (.brokenPipe, Text.utf8 "r :\n\t'é' \nr :\n\t'" ++ [0xc3]) := by
  obtain ⟨summary, full, hfull, hlimited⟩ :=
    outcome_limited .rail mixedFiles ["good", "missing", "good"]
  have hwritten : outcome .rail mixedFiles .unlimited ["good", "missing", "good"] =
      .ok (⟨2, 0, [.unreadable "missing" .notFound], [.found "good" "r",
        .failed (.unreadable "missing" .notFound), .found "good" "r"]⟩,
        Text.utf8 "r :\n\t'é' \nr :\n\t'é' \n") := by
    decide +kernel
  obtain ⟨rfl, rfl⟩ := Prod.mk.inj (Except.ok.inj (hfull.symm.trans hwritten))
  exact ⟨(hlimited 22).trans (if_pos (by decide)), (hlimited 18).trans (by decide)⟩

end Batch

end Railroad
