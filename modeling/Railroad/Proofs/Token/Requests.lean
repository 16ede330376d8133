import Railroad.Proofs.Token.Lookahead
import Railroad.Token.Requests

/-!
# A scanner as a cursor

However a scanner is asked, its answers are those of a cursor that moves along the tokens of
the source.  Only taking a token moves the cursor: a look shows what will be taken next, and
whoever asks for the source or for a part of it, even for one that does not exist, changes
nothing about what comes later.

Main definitions:

- Definition {lit}`Scanner.cursorAnswer`: what is answered behind some tokens.
- Definition {lit}`Scanner.Behind`: a scanner from which some tokens have been taken.

Main results:

- Theorems {lit}`Scanner.Behind.answer_eq` and {lit}`Scanner.Behind.answer`: one request.
- Theorem {lit}`Scanner.Behind.answers_eq`: any requests.
- Theorem {lit}`Scanner.answers_of_cursor`: any requests to a fresh scanner.
-/

namespace Railroad.Scanner

/-- The answer to a request when `taken` tokens have been taken. -/
def cursorAnswer (source : String) (taken : Nat) : Request → Answer
  | .next | .peek => .token (Token.ofSource source)[taken]?
  | .source => .source source
  | .slice span => .slice ((Text.slice? source.toList span).map String.ofList)

/-- The scanner of a source from which `taken` tokens have been taken. -/
structure Behind (source : String) (taken : Nat) (s : Scanner) : Prop where
  source_eq : s.source = source
  sound : s.Sound
  left_eq : s.left = (Token.ofSource source).drop taken

theorem behind_ofSource (source : String) : Behind source 0 (ofSource source) :=
  ⟨rfl, sound_ofSource source, rfl⟩

variable {source : String} {taken : Nat} {s : Scanner}

/-! ## One request -/

/-- The first of the tokens that are left stands where the cursor does. -/
theorem Behind.head?_left (h : Behind source taken s) :
    s.left.head? = (Token.ofSource source)[taken]? := by
  rw [h.left_eq, List.head?_drop]

/-- The answer to a request is that of the cursor. -/
theorem Behind.answer_eq (h : Behind source taken s) (request : Request) :
    (s.answer request).1 = cursorAnswer source taken request := by
  cases request with
  | next => rw [answer, next_eq, h.head?_left, cursorAnswer]
  | peek => rw [answer, peek_eq, h.head?_left, cursorAnswer]
  | source => rw [answer, h.source_eq, cursorAnswer]
  | slice span => rw [answer, slice?, h.source_eq, cursorAnswer]

/-- A request moves the cursor if it takes a token. -/
theorem Behind.answer (h : Behind source taken s) (request : Request) :
    Behind source (taken + [request].count .next) (s.answer request).2 := by
  cases request with
  | next =>
    refine ⟨(source_next s).trans h.source_eq, h.sound.next, ?_⟩
    rw [Scanner.answer, h.sound.left_next, h.left_eq, List.tail_drop]
    rfl
  | peek =>
    exact ⟨(source_peek s).trans h.source_eq, h.sound.peek, (left_peek s).trans h.left_eq⟩
  | source => exact h
  | slice span => exact h

/-! ## Any requests -/

/-- What is answered depends on how many tokens have been taken before. -/
theorem Behind.answers_eq (h : Behind source taken s) (requests : List Request) (k : Nat) :
    (s.answers requests)[k]? =
      requests[k]?.map (cursorAnswer source (taken + (requests.take k).count .next)) := by
  induction requests generalizing s taken k with
  | nil => rfl
  | cons request requests ih =>
    cases k with
    | zero =>
      rw [answers, List.getElem?_cons_zero, List.getElem?_cons_zero, h.answer_eq request]
      rfl
    | succ k =>
      rw [answers, List.getElem?_cons_succ, List.getElem?_cons_succ, ih (h.answer request) k,
        List.take_succ_cons, ← List.singleton_append (l := requests.take k), List.count_append,
        Nat.add_assoc]

/-- The answer to a request behind others. -/
theorem Behind.getElem?_answers (h : Behind source taken s) (before : List Request)
    (request : Request) (after : List Request) :
    (s.answers (before ++ request :: after))[before.length]? =
      some (cursorAnswer source (taken + before.count .next) request) := by
  rw [h.answers_eq, List.take_left, List.getElem?_append_right (Nat.le_refl _), Nat.sub_self,
    List.getElem?_cons_zero, Option.map_some]

/-- A request that takes no token changes no later answer. -/
theorem Behind.drop_answers (h : Behind source taken s) (before : List Request)
    {request : Request} (hrequest : request ≠ .next) (after : List Request) :
    (s.answers (before ++ request :: after)).drop (before.length + 1) =
      (s.answers (before ++ after)).drop before.length := by
  apply List.ext_getElem?
  intro k
  have hcount : ((before ++ request :: after).take (before.length + (k + 1))).count .next =
      ((before ++ after).take (before.length + k)).count .next := by
    rw [List.take_length_add_append, List.take_length_add_append, List.take_succ_cons,
      List.count_append, List.count_append, List.count_cons_of_ne hrequest]
  have hrequests : (before ++ request :: after)[before.length + (k + 1)]? =
      (before ++ after)[before.length + k]? := by
    rw [List.getElem?_append_right (Nat.le_add_right _ _),
      List.getElem?_append_right (Nat.le_add_right _ _), Nat.add_sub_cancel_left,
      Nat.add_sub_cancel_left, List.getElem?_cons_succ]
  rw [List.getElem?_drop, List.getElem?_drop, Nat.add_assoc, Nat.add_comm 1 k, h.answers_eq,
    h.answers_eq, hcount, hrequests]

/-- The answers of a scanner to any requests are those of a cursor: behind `n` requests for
the next token, it stands in front of the token with the index `n`.  A request that takes no
token changes no later answer, a look shows what will be taken next, and once all tokens have
been taken there are no others. -/
theorem answers_of_cursor (source : String) :
    (∀ requests k, ((ofSource source).answers requests)[k]? =
        requests[k]?.map (cursorAnswer source ((requests.take k).count .next))) ∧
      (∀ before request after, request ≠ .next →
        ((ofSource source).answers (before ++ request :: after)).drop (before.length + 1) =
          ((ofSource source).answers (before ++ after)).drop before.length) ∧
      (∀ before between after, .next ∉ between →
        let answers := (ofSource source).answers (before ++ .peek :: (between ++ .next :: after))
        answers[before.length]? = answers[before.length + (between.length + 1)]?) ∧
      ∀ before request after, request = .next ∨ request = .peek →
        (Token.ofSource source).length ≤ before.count .next →
          ((ofSource source).answers (before ++ request :: after))[before.length]? =
            some (.token none) := by
  have hstart := behind_ofSource source
  refine ⟨?_, fun before request after hrequest => hstart.drop_answers before hrequest after,
    ?_, ?_⟩
  · intro requests k
    rw [hstart.answers_eq requests k, Nat.zero_add]
  · intro before between after hbetween answers
    have hlook := hstart.getElem?_answers before .peek (between ++ .next :: after)
    have htake := hstart.getElem?_answers (before ++ .peek :: between) .next after
    have hcount : (before ++ .peek :: between).count .next = before.count .next := by
      rw [List.count_append, List.count_cons_of_ne (by decide), List.count_eq_zero.mpr hbetween,
        Nat.add_zero]
    rw [hcount, List.length_append, List.length_cons, List.append_assoc, List.cons_append]
      at htake
    exact hlook.trans htake.symm
  · intro before request after hrequest htaken
    have hend : (Token.ofSource source)[before.count .next]? = none :=
      List.getElem?_eq_none htaken
    rw [hstart.getElem?_answers, Nat.zero_add]
    rcases hrequest with rfl | rfl <;> rw [cursorAnswer, hend]

/-- A look, a span that ends before it starts, a second look, and requests behind the first
token. -/
def mixedRequests : List Request :=
  [.peek, .slice ⟨7, 2⟩, .peek, .source, .next, .peek, .source, .next]

/-- The looks are past a comment, the span is as good as not asked for, and there is no second
token. -/
theorem answers_of_cursor_comment :
    ((ofSource "// é\n a").answers mixedRequests)[4]? =
        some (.token (some ⟨.identifier, "a", ⟨7, 8⟩⟩)) ∧
      ((ofSource "// é\n a").answers mixedRequests)[0]? =
        ((ofSource "// é\n a").answers mixedRequests)[4]? ∧
      ((ofSource "// é\n a").answers mixedRequests)[5]? = some (.token none) ∧
      ((ofSource "// é\n a").answers mixedRequests).drop 2 =
        ((ofSource "// é\n a").answers
          [.peek, .peek, .source, .next, .peek, .source, .next]).drop 1 := by
  obtain ⟨hcursor, hkept, hlook, hend⟩ := answers_of_cursor "// é\n a"
  have htokens : Token.ofSource "// é\n a" = [⟨.identifier, "a", ⟨7, 8⟩⟩] := by decide +kernel
  refine ⟨?_, ?_, ?_, ?_⟩
  · have hfirst : (mixedRequests.take 4).count .next = 0 := by decide
    rw [hcursor, hfirst]
    simp [mixedRequests, cursorAnswer, htokens]
  · exact hlook [] [.slice ⟨7, 2⟩, .peek, .source] [.peek, .source, .next] (by decide)
  · refine hend [.peek, .slice ⟨7, 2⟩, .peek, .source, .next] .peek [.source, .next]
      (.inr rfl) ?_
    rw [htokens]
    decide
  · exact hkept [.peek] (.slice ⟨7, 2⟩) [.peek, .source, .next, .peek, .source, .next]
      (by decide)

end Railroad.Scanner
