import Railroad.Proofs.Diagram.Calls
import Railroad.Proofs.Leaves
import Railroad.Proofs.Rail.RoundTrip

/-!
# Literals in diagrams

A diagram is part of a script, in which the leaves of a rule stand as string literals.
Names always do.  Terminals and remarks are put there as they are, without any escapes, so
that a backslash, a quote or a line end in them can end a literal early, or keep it open
beyond the leaf.  If no leaf is of that kind, then the literals of a diagram are its leaves.

Main definitions:

- Definition {lit}`Script.IsLiteral`: the form of string literals.
- Definition {lit}`Script.literals`: the string literals of a script, from left to right.
- Definition {lit}`Node.literal`: how a leaf stands in a diagram.

Main results:

- Theorem {lit}`Script.isLiteral_of_mem_literals`: whatever is found in a script has the
  form of literals.
- Theorem {lit}`Rule.literals_diagram_iff`: the literals of a diagram are the leaves of its
  rule exactly if terminals and remarks have the form of literals.
-/

namespace Railroad

/-! ## String literals -/

namespace Script

/-- The characters that end a line, which no literal holds. -/
def endsLine (c : Char) : Bool :=
  c == '\n' || c == '\r'

/-- What can stand between two quotes: a backslash escapes the character behind it, and the
quote itself only stands there escaped. -/
inductive Body (quote : Char) : List Char → Prop where
  | nil : Body quote []
  | plain {c : Char} {cs : List Char} (hquote : c ≠ quote) (hslash : c ≠ '\\')
      (hline : endsLine c = false) (h : Body quote cs) : Body quote (c :: cs)
  | escape {c : Char} {cs : List Char} (hline : endsLine c = false) (h : Body quote cs) :
      Body quote ('\\' :: c :: cs)

/-- A single or double quote, what can stand between two of these, and the same quote
again. -/
def IsLiteral (cs : List Char) : Prop :=
  ∃ quote body, (quote = '\'' ∨ quote = '"') ∧ cs = quote :: (body ++ [quote]) ∧ Body quote body

/-- What can stand between quotes can be put together, as no escape is cut in two. -/
theorem Body.append {quote : Char} {cs ds : List Char} (hcs : Body quote cs)
    (hds : Body quote ds) : Body quote (cs ++ ds) := by
  induction hcs with
  | nil => exact hds
  | plain hquote hslash hline _ ih => exact .plain hquote hslash hline ih
  | escape hline _ ih => exact .escape hline ih

/-- Characters that need no escape. -/
theorem body_of_forall {quote : Char} {cs : List Char}
    (h : ∀ c ∈ cs, c ≠ quote ∧ c ≠ '\\' ∧ endsLine c = false) : Body quote cs := by
  induction cs with
  | nil => exact .nil
  | cons c cs ih =>
    rw [List.forall_mem_cons] at h
    exact .plain h.1.1 h.1.2.1 h.1.2.2 (ih h.2)

/-! ## Finding literals -/

/-- Where the next character of a script stands, with the literals that were found before. -/
inductive State where
  | outside (found : List (List Char))
  /-- In a literal, behind a quote and some of what it encloses. -/
  | inside (found : List (List Char)) (quote : Char) (body : List Char)
  /-- In a literal, behind a backslash. -/
  | escaped (found : List (List Char)) (quote : Char) (body : List Char)
deriving DecidableEq, Repr, Inhabited

/-- One more character.  A line must not end in a literal. -/
def State.step : State → Char → Option State
  | outside found, c =>
    if c = '\'' ∨ c = '"' then some (inside found c []) else some (outside found)
  | inside found quote body, c =>
    if c = quote then some (outside (found ++ [quote :: (body ++ [quote])]))
    else if c = '\\' then some (escaped found quote body)
    else if endsLine c then none
    else some (inside found quote (body ++ [c]))
  | escaped found quote body, c =>
    if endsLine c then none else some (inside found quote (body ++ ['\\', c]))

/-- The string literals of a script, unless one of them is not ended. -/
def literals (text : String) : Option (List String) :=
  match text.toList.foldlM State.step (.outside []) with
  | some (.outside found) => some (found.map String.ofList)
  | _ => none

/-! ## What is found -/

/-- All that was found has the form of literals, and what may become one has the form of
its beginning. -/
def State.Sound : State → Prop
  | outside found => ∀ l ∈ found, IsLiteral l
  | inside found quote body | escaped found quote body =>
    (∀ l ∈ found, IsLiteral l) ∧ (quote = '\'' ∨ quote = '"') ∧ Body quote body

/-- One more character keeps all that was found in the form of literals. -/
theorem State.sound_step {s s' : State} {c : Char} (h : s.Sound) (hstep : s.step c = some s') :
    s'.Sound := by
  cases s with
  | outside found =>
    simp only [step] at hstep
    split_ifs at hstep with hquote
    · cases hstep
      exact ⟨h, hquote, .nil⟩
    · cases hstep
      exact h
  | inside found quote body =>
    rcases h with ⟨hfound, hquote, hbody⟩
    simp only [step] at hstep
    split_ifs at hstep with hend hslash hline
    · cases hstep
      rw [Sound, List.forall_mem_append, List.forall_mem_singleton]
      exact ⟨hfound, quote, body, hquote, rfl, hbody⟩
    · cases hstep
      exact ⟨hfound, hquote, hbody⟩
    · cases hstep
      have hlast : Body quote [c] := .plain hend hslash (by simpa using hline) .nil
      exact ⟨hfound, hquote, hbody.append hlast⟩
  | escaped found quote body =>
    rcases h with ⟨hfound, hquote, hbody⟩
    simp only [step] at hstep
    split_ifs at hstep with hline
    · cases hstep
      have hlast : Body quote ['\\', c] := .escape (by simpa using hline) .nil
      exact ⟨hfound, hquote, hbody.append hlast⟩

/-- So does a whole text. -/
theorem State.sound_run {s s' : State} {text : List Char} (h : s.Sound)
    (hrun : text.foldlM step s = some s') : s'.Sound := by
  induction text generalizing s with
  | nil =>
    cases hrun
    exact h
  | cons c text ih =>
    rw [List.foldlM_cons, Option.bind_eq_bind, Option.bind_eq_some_iff] at hrun
    rcases hrun with ⟨next, hstep, hrest⟩
    exact ih (sound_step h hstep) hrest

/-- Whatever is found in a script has the form of literals. -/
theorem isLiteral_of_mem_literals {text : String} {ls : List String} {l : String}
    (h : literals text = some ls) (hl : l ∈ ls) : IsLiteral l.toList := by
  unfold literals at h
  split at h
  · next found hrun =>
    have hsound : State.Sound (.outside found) :=
      State.sound_run (s := .outside []) (by simp [State.Sound]) hrun
    cases h
    rcases List.mem_map.mp hl with ⟨cs, hcs, rfl⟩
    rw [String.toList_ofList]
    exact hsound cs hcs
  · cases h

/-! ## Parts of a script -/

/-- A part of a script that begins and ends outside of literals, with the literals in it. -/
def Holds (text : List Char) (ls : List (List Char)) : Prop :=
  ∀ found, text.foldlM State.step (.outside found) = some (.outside (found ++ ls))

theorem holds_nil : Holds [] [] := by
  intro found
  rw [List.append_nil]
  rfl

/-- Parts of a script hold their literals one after the other. -/
theorem Holds.append {s t : List Char} {ls ms : List (List Char)} (hs : Holds s ls)
    (ht : Holds t ms) : Holds (s ++ t) (ls ++ ms) := by
  intro found
  rw [List.foldlM_append, hs found, ← List.append_assoc]
  exact ht (found ++ ls)

/-- A text without quotes has no literals. -/
theorem holds_plain {text : List Char} (h : ∀ c ∈ text, c ≠ '\'' ∧ c ≠ '"') : Holds text [] := by
  intro found
  induction text with
  | nil => exact holds_nil found
  | cons c text ih =>
    rw [List.forall_mem_cons] at h
    have hstep : State.step (.outside found) c = some (.outside found) :=
      if_neg (not_or_intro h.1.1 h.1.2)
    rw [List.foldlM_cons, hstep]
    exact ih h.2

/-- What can stand between two quotes is gathered up to its end. -/
theorem foldlM_body {found : List (List Char)} {quote : Char} {body : List Char}
    (hquote : quote = '\'' ∨ quote = '"') (h : Body quote body) (front : List Char) :
    body.foldlM State.step (.inside found quote front) =
      some (.inside found quote (front ++ body)) := by
  induction h generalizing front with
  | nil => simp
  | plain hne hslash hline _ ih =>
    simp [State.step, hne, hslash, hline, ih]
  | escape hline _ ih =>
    have hslash : '\\' ≠ quote := by
      rcases hquote with rfl | rfl <;> decide
    simp [State.step, hslash, hline, ih]

/-- A literal is found as it stands there. -/
theorem holds_literal {cs : List Char} (h : IsLiteral cs) : Holds cs [cs] := by
  intro found
  rcases h with ⟨quote, body, hquote, rfl, hbody⟩
  have hopen : State.step (.outside found) quote = some (.inside found quote []) :=
    if_pos hquote
  rw [List.foldlM_cons, hopen, Option.bind_eq_bind, Option.bind_some, List.foldlM_append,
    foldlM_body hquote hbody, Option.bind_eq_bind, Option.bind_some, List.foldlM_cons]
  simp [State.step]

/-- A script has the literals of its only part. -/
theorem literals_eq {text : String} {ls : List (List Char)} (h : Holds text.toList ls) :
    literals text = some (ls.map String.ofList) := by
  rw [literals, h []]
  rfl

end Script

/-! ## Leaves -/

namespace Node

open Script

/-- How a leaf stands in a diagram: a terminal as it is, anything else between quotes. -/
def literal (leaf : Kind × String) : String :=
  if leaf.1 = .terminal then leaf.2 else "'" ++ leaf.2 ++ "'"

/-- The literals that a tree should have in a diagram. -/
def shown (node : Node) : List (List Char) :=
  node.leaves.map fun leaf => (literal leaf).toList

/-- A node that is no leaf shows the literals of its children. -/
theorem shown_eq {kind : Kind} (h : kind.shows = false) (value : String) (nodes : List Node) :
    shown ⟨kind, value, nodes⟩ = nodes.flatMap shown := by
  rw [shown, leaves_eq, if_neg (by simp [h]), List.nil_append, leavesAll_eq_flatMap,
    List.map_flatMap]
  rfl

/-- The further arguments of a call hold their literals one after the other. -/
theorem holds_furtherCalls {nodes : List Node} (h : ∀ node ∈ nodes, Holds node.calls node.shown) :
    Holds (furtherCalls nodes) (nodes.flatMap shown) := by
  induction nodes with
  | nil => exact holds_nil
  | cons node nodes ih =>
    rw [List.forall_mem_cons] at h
    have hcomma : Holds [',', ' '] [] := holds_plain (by simp)
    have hfront := (hcomma.append h.1).append (ih h.2)
    simpa [furtherCalls] using hfront

/-- A call holds the literals of its arguments. -/
theorem holds_call {kind : Kind} {nodes : List Node} (hkind : kind.isCall) (hne : nodes ≠ [])
    (h : ∀ node ∈ nodes, Holds node.calls node.shown) :
    Holds (calls ⟨kind, "", nodes⟩) (shown ⟨kind, "", nodes⟩) := by
  obtain ⟨node, nodes, rfl⟩ := List.exists_cons_of_ne_nil hne
  rw [List.forall_mem_cons] at h
  have hopening : Holds kind.opening.toList [] := by
    apply holds_plain
    cases kind <;> simp [Kind.opening]
  have hclosing : Holds (')' :: kind.gap.toList) [] := by
    apply holds_plain
    cases kind <;> simp [Kind.gap]
  have hshows : kind.shows = false := by
    cases kind with
    | sequence | choice | choiceRight | choiceLeft | loop => rfl
    | _ => cases hkind
  have hall := hopening.append (h.1.append ((holds_furtherCalls h.2).append hclosing))
  rw [calls_call hkind, shown_eq hshows, List.flatMap_cons]
  simpa using hall

/-- A tree in normal form holds the literals of its leaves, if they have the form of
literals. -/
theorem Normal.holds_calls {layer : Layer} {node : Node} (h : Normal layer node)
    (hleaves : ∀ leaf ∈ node.leaves, IsLiteral (literal leaf).toList) :
    Holds node.calls node.shown := by
  induction h with
  | @name value hname =>
    have hliteral := holds_literal (hleaves (.nonTerminal, value) List.mem_cons_self)
    have hfront : Holds "NonTerminal(".toList [] := holds_plain (by simp)
    have hback : Holds [')'] [] := holds_plain (by simp)
    simpa [calls_nonTerminal, shown, leaves, leavesAll, Kind.shows, literal] using
      hfront.append (hliteral.append hback)
  | @terminal value hterminal =>
    have hliteral := holds_literal (hleaves (.terminal, value) List.mem_cons_self)
    simpa [calls_terminal, shown, leaves, leavesAll, Kind.shows, literal] using hliteral
  | @remark value hbracket htrim =>
    have hliteral := holds_literal (hleaves (.remark, value) List.mem_cons_self)
    have hfront : Holds "Comment (".toList [] := holds_plain (by simp)
    have hback : Holds [')'] [] := holds_plain (by simp)
    simpa [calls_remark, shown, leaves, leavesAll, Kind.shows, literal] using
      hfront.append (hliteral.append hback)
  | emptyGroup => exact holds_nil
  | @group inner hinner ih =>
    rw [calls_group, shown_eq rfl, List.flatMap_singleton]
    exact ih (forall_leaves_child List.mem_cons_self hleaves)
  | single hnode ih | only hnode ih | notRight hnode ih | notLeft hnode ih => exact ih hleaves
  | sequence hlength hnodes ih | choice hlength hnodes ih =>
    refine holds_call rfl (List.ne_nil_of_length_pos (by omega)) ?_
    exact fun node hmem => ih node hmem (forall_leaves_child hmem hleaves)
  | loop hinner ih | right hinner ih | left hinner ih =>
    refine holds_call rfl (List.cons_ne_nil _ _) ?_
    rw [List.forall_mem_singleton]
    exact ih (forall_leaves_child List.mem_cons_self hleaves)

/-- The names in a tree in normal form are identifiers. -/
theorem Normal.isIdentifier {layer : Layer} {node : Node} (h : Normal layer node) :
    ∀ value, (.nonTerminal, value) ∈ node.leaves → IsIdentifier value.toList := by
  intro value hleaf
  induction h with
  | name hname =>
    obtain rfl : value = _ := by simpa [leaves, leavesAll, Kind.shows] using hleaf
    exact hname
  | terminal | remark | emptyGroup => simp [leaves, leavesAll, Kind.shows] at hleaf
  | single hnode ih | only hnode ih | notRight hnode ih | notLeft hnode ih => exact ih hleaf
  | group hinner ih | loop hinner ih | right hinner ih | left hinner ih =>
    exact ih (by simpa [leaves, leavesAll, Kind.shows] using hleaf)
  | sequence hlength hnodes ih | choice hlength hnodes ih =>
    rw [leaves_eq, leavesAll_eq_flatMap] at hleaf
    simp only [Kind.shows, Bool.false_eq_true, if_false, List.nil_append, List.mem_flatMap]
      at hleaf
    rcases hleaf with ⟨node, hmem, hleaf⟩
    exact ih node hmem hleaf

/-- A name is a literal between quotes. -/
theorem isLiteral_name {value : String} (h : IsIdentifier value.toList) :
    IsLiteral (literal (.nonTerminal, value)).toList := by
  refine ⟨'\'', value.toList, .inl rfl, by simp [literal], body_of_forall ?_⟩
  intro c hc
  have hother {d : Char} (hd : Lexeme.isNamePart d = false) : c ≠ d := by
    rintro rfl
    rw [h.isNamePart c hc] at hd
    cases hd
  have hfeed := hother (d := '\n') (by decide)
  have hreturn := hother (d := '\r') (by decide)
  exact ⟨hother (by decide), hother (by decide), by simp [endsLine, hfeed, hreturn]⟩

end Node

namespace Rule

open Script Node

/-- The string literals of the diagram of a rule of a source are the leaves of the rule
exactly if its terminals and remarks have the form of literals as they stand there. -/
theorem literals_diagram_iff {source : String} {rule : Rule}
    (h : parse source = .ok (some rule)) :
    literals rule.diagram.text = some (rule.root.leaves.map literal) ↔
      ∀ leaf ∈ rule.root.leaves, leaf.1 ≠ .nonTerminal → IsLiteral (literal leaf).toList := by
  constructor
  · intro hliterals leaf hleaf hkind
    exact isLiteral_of_mem_literals hliterals (List.mem_map_of_mem hleaf)
  · intro hleaves
    have hroot : Holds rule.root.calls rule.root.shown := by
      rcases (normal_of_parse_eq h).root with hempty | hbody
      · rw [hempty]
        exact holds_nil
      · refine hbody.holds_calls ?_
        rintro ⟨kind, value⟩ hleaf
        -- Names need no hypothesis, as identifiers have neither quotes nor backslashes.
        by_cases hkind : kind = .nonTerminal
        · subst hkind
          exact isLiteral_name (hbody.isIdentifier value hleaf)
        · exact hleaves _ hleaf hkind
    have hfront : Holds "ComplexDiagram(\n\t".toList [] := holds_plain (by simp)
    have hback : Holds "\n).addTo()\n".toList [] := holds_plain (by simp)
    have hdiagram := hfront.append (hroot.append hback)
    rw [List.nil_append, List.append_nil, ← toList_diagram] at hdiagram
    rw [literals_eq hdiagram, shown, List.map_map]
    congr 1
    apply List.map_congr_left
    intro leaf hleaf
    exact String.ofList_toList

/-- A terminal between double quotes that holds a single quote, and a remark. -/
def quoteAndRemark : Rule :=
  ⟨"r", ⟨.sequence, "", [.terminal "\"it's\"",
    ⟨.loop, "", [⟨.group, "", [⟨.sequence, "", [.nonTerminal "a", .remark "to do"]⟩]⟩]⟩]⟩⟩

/-- The literals of its diagram are its leaves in order. -/
theorem literals_diagram_remark :
    parse "r : \"it's\" (a [to do])+ ;" = .ok (some quoteAndRemark) ∧
      literals quoteAndRemark.diagram.text = some ["\"it's\"", "'a'", "'to do'"] := by
  have h : parse "r : \"it's\" (a [to do])+ ;" = .ok (some quoteAndRemark) := by
    decide +kernel
  have hterminal : IsLiteral "\"it's\"".toList :=
    ⟨'"', "it's".toList, .inr rfl, rfl, body_of_forall (by simp [endsLine])⟩
  have hremark : IsLiteral "'to do'".toList :=
    ⟨'\'', "to do".toList, .inl rfl, rfl, body_of_forall (by simp [endsLine])⟩
  refine ⟨h, (literals_diagram_iff h).mpr ?_⟩
  have hleaves : quoteAndRemark.root.leaves =
      [(.terminal, "\"it's\""), (.nonTerminal, "a"), (.remark, "to do")] := by decide
  rw [hleaves]
  simpa [literal] using And.intro hterminal hremark

/-- A terminal that ends with a backslash. -/
def endingInBackslash : Rule :=
  ⟨"r", .terminal "'a\\'"⟩

/-- A backslash in front of the last quote of a terminal escapes it, so that the literal
does not end where the terminal ends. -/
theorem literals_diagram_backslash :
    parse "r : 'a\\' ;" = .ok (some endingInBackslash) ∧
      endingInBackslash.root.leaves = [(.terminal, "'a\\'")] ∧
      endingInBackslash.diagram.text = "ComplexDiagram(\n\t'a\\'\n).addTo()\n" ∧
      ¬ IsLiteral (literal (.terminal, "'a\\'")).toList ∧
      literals endingInBackslash.diagram.text = none := by
  refine ⟨by decide +kernel, by decide, by decide +kernel, ?_, by decide +kernel⟩
  intro hliteral
  have hfound := literals_eq (holds_literal hliteral)
  revert hfound
  decide +kernel

end Rule

end Railroad
