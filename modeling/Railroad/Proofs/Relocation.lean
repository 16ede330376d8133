import Railroad.Proofs.Reading
import Railroad.Proofs.Token.Spelling

/-!
# Reading does not look at places

The machine that reads a rule takes the spans of tokens only to put them, or the smallest
range around two of them, into faults.  If the tokens of a text stand elsewhere, the machine
does the same with them, and its faults name the places where the tokens now stand.

Main definitions:

- Definitions {lit}`Token.relocate` and {lit}`Rule.Error.relocate`: the same token, or the
  same fault, elsewhere.

Main results:

- Theorem {lit}`Reading.step_relocate`: one token that stands elsewhere.
- Theorem {lit}`Reading.run_relocate`: the run of tokens that stand elsewhere.
- Theorem {lit}`Reading.run_eq_ok_of_map_symbol_eq`: a run without a fault depends on the kinds
  and the texts of its tokens only.
-/

namespace Railroad

/-! ## The same things elsewhere -/

/-- The same token at another place. -/
def Token.relocate (f : Span → Span) (t : Token) : Token :=
  { t with span := f t.span }

/-- The same alternation, read from bars at other places. -/
def Alternation.relocate (f : Span → Span) (a : Alternation) : Alternation :=
  { a with closed := a.closed.map (Prod.map id f) }

/-- The same open group with its bracket at another place. -/
def OpenGroup.relocate (f : Span → Span) (g : OpenGroup) : OpenGroup :=
  ⟨f g.bracket, g.around.relocate f⟩

/-- The same body, read from tokens at other places. -/
def Body.relocate (f : Span → Span) (b : Body) : Body :=
  ⟨b.groups.map (OpenGroup.relocate f), b.current.relocate f⟩

/-- The same reading of tokens at other places. -/
def Reading.relocate (f : Span → Span) : Reading → Reading
  | start => start
  | named name => named name
  | body name b => body name (b.relocate f)
  | closed name root => closed name root

/-- The same fault at another place. -/
def Rule.Error.relocate (f : Span → Span) : Rule.Error → Rule.Error
  | unexpectedToken expected found span => unexpectedToken expected found (f span)
  | unexpectedEnd expected span => unexpectedEnd expected (f span)
  | unclosedDelimiter delimiter span => unclosedDelimiter delimiter (f span)
  | invalidToken value span => invalidToken value (f span)
  | emptyAlternative span => emptyAlternative (f span)
  | tooDeep limit span => tooDeep limit (f span)

/-- The same refusal of a token at another place. -/
def Reading.Refusal.relocate (f : Span → Span) (r : Reading.Refusal) : Reading.Refusal :=
  { r with error := r.error.relocate f }

/-- Shifting a fault moves its place. -/
theorem Rule.Error.relocate_shift (k : Nat) : Rule.Error.relocate (Span.shift k) = shift k := by
  funext e
  cases e <;> rfl

theorem Token.relocate_shift (k : Nat) : Token.relocate (Span.shift k) = shift k := rfl

/-- The smallest range around shifted ranges. -/
theorem Span.shift_merge (k : Nat) (s t : Span) :
    (s.merge t).shift k = (s.shift k).merge (t.shift k) := by
  simp only [merge, shift, mk.injEq]
  omega

/-! ## Trees -/

variable {f : Span → Span}

@[simp] theorem Alternation.branch_relocate (a : Alternation) :
    (a.relocate f).branch = a.branch := rfl

section

variable (hf : ∀ s t : Span, f (s.merge t) = (f s).merge (f t))
include hf

/-- The empty branch that is reported is the same one at another place. -/
theorem Alternation.emptyInner?_relocate (closed : List (Option Node × Span)) :
    emptyInner? (closed.map (Prod.map id f)) = (emptyInner? closed).map f := by
  induction closed with
  | nil => rfl
  | cons first rest ih =>
    cases rest with
    | nil => rfl
    | cons second rest =>
      obtain ⟨branch, bar⟩ := second
      cases branch with
      | none =>
        simp only [List.map_cons, Prod.map, id_eq, emptyInner?, Option.map_some, hf]
      | some node => exact ih

/-- An alternation whose bars stand elsewhere has the same tree, or the same fault there. -/
theorem Alternation.tree_relocate (a : Alternation) :
    (a.relocate f).tree = a.tree.mapError (Rule.Error.relocate f) := by
  have hreverse : (a.relocate f).closed.reverse = a.closed.reverse.map (Prod.map id f) :=
    List.map_reverse.symm
  rw [tree, tree, hreverse, branch_relocate]
  cases hclosed : a.closed.reverse with
  | nil => rfl
  | cons first rest =>
    obtain ⟨branch, bar⟩ := first
    have hinner := emptyInner?_relocate hf ((branch, bar) :: rest)
    have hfilled : (((branch, bar) :: rest).map (Prod.map id f)).filterMap Prod.fst =
        ((branch, bar) :: rest).filterMap Prod.fst := by
      rw [List.filterMap_map]
      rfl
    rw [List.map_cons] at hinner hfilled ⊢
    simp only [Prod.map, id_eq] at hinner hfilled ⊢
    rw [treeOf, treeOf, hinner, hfilled]
    cases emptyInner? ((branch, bar) :: rest) with
    | some span => rfl
    | none =>
      simp only [Option.map_none]
      split <;> rfl

end

/-! ## Steps -/

@[simp] theorem Token.kind_relocate (t : Token) : (t.relocate f).kind = t.kind := rfl

@[simp] theorem Token.text_relocate (t : Token) : (t.relocate f).text = t.text := rfl

namespace Body

/-- A token that has no place in a body makes the same fault elsewhere. -/
theorem faultOf_relocate (t : Token) : faultOf (t.relocate f) = (faultOf t).relocate f := by
  rw [faultOf, faultOf, Token.text_relocate]
  split <;> rfl

/-- A group makes the same tree, or the fault that it nests too deeply, at its new place. -/
theorem groupOf_relocate (span : Span) (inner : Node) :
    groupOf (f span) inner = (groupOf span inner).mapError (Rule.Error.relocate f) := by
  rw [groupOf, groupOf]
  split
  · rfl
  · split <;> rfl

/-- Opening a group has the same effect elsewhere. -/
theorem openGroup_relocate (b : Body) (span : Span) :
    (b.relocate f).openGroup (f span) =
      ((b.openGroup span).map (relocate f)).mapError (Rule.Error.relocate f) := by
  have hlength : (b.relocate f).groups.length = b.groups.length := List.length_map _
  rw [openGroup, openGroup, hlength]
  split <;> rfl

/-- So has a plus sign. -/
theorem repeatLast_relocate (b : Body) (t : Token) :
    (b.relocate f).repeatLast (t.relocate f) =
      ((b.repeatLast t).map (relocate f)).mapError (Rule.Error.relocate f) := by
  have helements : (b.relocate f).current.elements = b.current.elements := rfl
  rw [repeatLast, repeatLast, helements]
  cases b.current.elements with
  | nil => rfl
  | cons node nodes =>
    dsimp only
    split <;> rfl

/-- One token that stands elsewhere, inside of the innermost alternation. -/
theorem step_relocate (b : Body) (t : Token) :
    (b.relocate f).step (t.relocate f) =
      ((b.step t).map (relocate f)).mapError (Rule.Error.relocate f) := by
  rw [step, step, Token.kind_relocate]
  cases t.kind with
  | identifier | terminal | remark | bar => rfl
  | openParen => exact b.openGroup_relocate t.span
  | plus => exact b.repeatLast_relocate t
  | openBracket | singleQuote | doubleQuote | malformed =>
    exact congrArg Except.error (faultOf_relocate t)
  | colon | semicolon | closeParen => rfl

end Body

namespace Reading

section

variable (hf : ∀ s t : Span, f (s.merge t) = (f s).merge (f t))
include hf

/-- An alternation is complete wherever it stands, or has the same fault there. -/
theorem complete_relocate (a : Alternation) :
    complete (a.relocate f) = (complete a).mapError (Refusal.relocate f) := by
  rw [complete, complete, Alternation.tree_relocate hf]
  cases a.tree <;> rfl

/-- Closing a group has the same effect elsewhere. -/
theorem closeGroup_relocate (name : String) (b : Body) (t : Token) :
    closeGroup name (b.relocate f) (t.relocate f) =
      ((closeGroup name b t).map (relocate f)).mapError (Refusal.relocate f) := by
  have hcurrent : (b.relocate f).current = b.current.relocate f := rfl
  have hgroups : (b.relocate f).groups = b.groups.map (OpenGroup.relocate f) := rfl
  rw [closeGroup, closeGroup, hcurrent, hgroups, complete_relocate hf]
  cases complete b.current with
  | error refusal => rfl
  | ok inner =>
    cases b.groups with
    | nil => rfl
    | cons group groups =>
      have hgroup := @Body.groupOf_relocate f group.bracket inner
      simp only [List.map_cons, Except.mapError, OpenGroup.relocate, ok_bind] at hgroup ⊢
      rw [hgroup]
      cases Body.groupOf group.bracket inner <;> rfl

/-- So has the semicolon of a rule. -/
theorem closeBody_relocate (name : String) (b : Body) (t : Token) :
    closeBody name (b.relocate f) (t.relocate f) =
      ((closeBody name b t).map (relocate f)).mapError (Refusal.relocate f) := by
  have hcurrent : (b.relocate f).current = b.current.relocate f := rfl
  have hgroups : (b.relocate f).groups = b.groups.map (OpenGroup.relocate f) := rfl
  rw [closeBody, closeBody, hcurrent, hgroups, complete_relocate hf]
  cases complete b.current with
  | error refusal => rfl
  | ok inner => cases b.groups <;> rfl

/-- One token that stands elsewhere. -/
theorem step_relocate (r : Reading) (t : Token) :
    (r.relocate f).step (t.relocate f) =
      ((r.step t).map (relocate f)).mapError (Refusal.relocate f) := by
  cases r with
  | start =>
    rw [relocate, step, step, Token.kind_relocate]
    split <;> rfl
  | named name =>
    rw [relocate, step, step, Token.kind_relocate]
    split <;> rfl
  | body name b =>
    rw [relocate, step, step, Token.kind_relocate]
    split
    · exact closeGroup_relocate hf name b t
    · exact closeBody_relocate hf name b t
    · rw [Body.step_relocate]
      cases b.step t <;> rfl
  | closed name root => rfl

/-- The end of a text in which all tokens stand elsewhere. -/
theorem finish_relocate {size size' : Nat} (hsize : f (.atEnd size) = .atEnd size')
    (r : Reading) :
    (r.relocate f).finish size' = (r.finish size).mapError (Rule.Error.relocate f) := by
  cases r with
  | start => rfl
  | named name =>
    rw [relocate, finish, finish, ← hsize]
    rfl
  | body name b =>
    have hcurrent : (b.relocate f).current = b.current.relocate f := rfl
    have hgroups : (b.relocate f).groups = b.groups.map (OpenGroup.relocate f) := rfl
    rw [relocate, finish, finish, hcurrent, hgroups, Alternation.tree_relocate hf]
    cases b.current.tree with
    | error e => rfl
    | ok root => cases b.groups <;> rfl
  | closed name root => rfl

/-- Tokens that stand elsewhere have the same outcome, with its faults elsewhere, and the same
tokens are left. -/
theorem run_relocate {size size' : Nat} (hsize : f (.atEnd size) = .atEnd size') (r : Reading)
    (ts : List Token) :
    (r.relocate f).run size' (ts.map (Token.relocate f)) =
      ((r.run size ts).1.mapError (Rule.Error.relocate f),
        (r.run size ts).2.map (Token.relocate f)) := by
  induction ts generalizing r with
  | nil => rw [List.map_nil, run, run, finish_relocate hf hsize, List.map_nil]
  | cons t ts ih =>
    have hstep := step_relocate hf r t
    cases hr : r.step t with
    | ok r' =>
      rw [hr] at hstep
      rw [List.map_cons, run_of_step_eq_ok hstep, run_of_step_eq_ok hr]
      exact ih r'
    | error refusal =>
      rw [hr] at hstep
      rw [List.map_cons, run_of_step_eq_error hstep, run_of_step_eq_error hr]
      cases htoken : refusal.tokenRead <;> simp [Refusal.relocate, htoken, Except.mapError]

end

/-! ## Tokens without places -/

/-- Tokens with the same kinds and texts are the same when they all stand at the start. -/
theorem map_relocate_of_map_symbol_eq {ts us : List Token}
    (h : ts.map Token.symbol = us.map Token.symbol) (span : Span) :
    ts.map (Token.relocate fun _ => span) = us.map (Token.relocate fun _ => span) := by
  have hplace : Token.relocate (fun _ => span) =
      (fun symbol : Token.Kind × String => ⟨symbol.1, symbol.2, span⟩) ∘ Token.symbol := rfl
  rw [hplace, ← List.map_map, h, List.map_map]

/-- A run without a fault depends on the kinds and the texts of its tokens only. -/
theorem run_eq_ok_of_map_symbol_eq {size size' : Nat} {ts us : List Token} {found : Option Rule}
    (h : ts.map Token.symbol = us.map Token.symbol)
    (hrun : (start.run size ts).1 = .ok found) : (start.run size' us).1 = .ok found := by
  -- Tokens that all stand at one place are equal as soon as their symbols are.
  have hmerge : ∀ s t : Span, (⟨0, 0⟩ : Span) = Span.merge ⟨0, 0⟩ ⟨0, 0⟩ := fun _ _ => rfl
  have hts := congrArg Prod.fst
    (@run_relocate (fun _ => ⟨0, 0⟩) hmerge size 0 rfl start ts)
  have hus := congrArg Prod.fst
    (@run_relocate (fun _ => ⟨0, 0⟩) hmerge size' 0 rfl start us)
  rw [map_relocate_of_map_symbol_eq h, hus, hrun] at hts
  cases houtcome : (start.run size' us).1 with
  | ok found' =>
    rw [houtcome] at hts
    exact hts
  | error e =>
    rw [houtcome] at hts
    cases hts

end Reading

end Railroad
