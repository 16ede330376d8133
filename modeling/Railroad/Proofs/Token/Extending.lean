import Railroad.Proofs.Token.Cutting
import Railroad.Proofs.Token.Writing

/-!
# Texts that go on

The tokens of a text stay the first tokens when more lines are put behind it.  A line feed ends
all that may be unfinished at the end of a text: names, comments, quotes and lone openers.  Only
brackets go on behind it, so that all of them must be closed.

Main definitions:

- Definition {lit}`Token.IsClosed`: the tokens that are no unclosed bracket.

Main results:

- Theorem {lit}`Lexeme.first_append_line`: the first lexeme of a text with more lines.
- Theorem {lit}`Token.ofText_append_line`: the tokens of a text with more lines.
-/

namespace Railroad

/-! ## The first lexeme -/

namespace Lexeme

/-- A run of characters of which a line feed is none. -/
theorem run_append_line (role : Role) {p : Char → Bool} (hp : p '\n' = false) (c : Char)
    (cs line : List Char) :
    run role p c (cs ++ '\n' :: line) =
      ((run role p c cs).1, (run role p c cs).2 ++ '\n' :: line) := by
  have hinner : ∀ d ∈ cs.takeWhile p, p d = true := fun d hd => List.mem_takeWhile_imp hd
  have hrest : ∀ d, (cs.dropWhile p ++ '\n' :: line).head? = some d → p d = false := by
    intro d hd
    cases hdrop : cs.dropWhile p with
    | nil =>
      rw [hdrop] at hd
      cases hd
      exact hp
    | cons e rest =>
      have hhead : (cs.dropWhile p).head? = some d := by
        rw [hdrop] at hd ⊢
        exact hd
      exact eq_false_of_head?_dropWhile hhead
  obtain ⟨htake, hdrop⟩ := takeWhile_dropWhile_append hinner hrest
  rw [← List.append_assoc, List.takeWhile_append_dropWhile] at htake hdrop
  rw [run, run, htake, hdrop]

/-- An opener that does not cover a line feed. -/
theorem delimited_append_line {whole alone : Token.Kind} {opener close : Char}
    {cut : Char → Bool} (hclose : '\n' ≠ close) (hcut : cut '\n' = true) (cs line : List Char) :
    delimited whole alone opener close cut (cs ++ '\n' :: line) =
      ((delimited whole alone opener close cut cs).1,
        (delimited whole alone opener close cut cs).2 ++ '\n' :: line) := by
  rcases exists_delimited close cut cs with ⟨inner, rest, hinner, rfl | ⟨rfl, hrest⟩⟩
  · rw [List.append_assoc, List.cons_append, delimited_of_close _ hinner,
      delimited_of_close _ hinner]
  · have hrest' : ∀ c, (rest ++ '\n' :: line).head? = some c → c ≠ close ∧ cut c = true := by
      intro c hc
      cases rest with
      | nil =>
        cases hc
        exact ⟨hclose, hcut⟩
      | cons d rest => exact hrest c hc
    rw [List.append_assoc, delimited_of_cut hinner hrest', delimited_of_cut hinner hrest]

/-- An opener begins a token. -/
theorem role_delimited (whole alone : Token.Kind) (opener close : Char) (cut : Char → Bool)
    (cs : List Char) :
    ∃ kind, (delimited whole alone opener close cut cs).1.role = .token kind := by
  rcases exists_delimited close cut cs with ⟨inner, rest, hinner, rfl | ⟨rfl, hrest⟩⟩
  · rw [delimited_of_close _ hinner]
    exact ⟨_, rfl⟩
  · rw [delimited_of_cut hinner hrest]
    exact ⟨_, rfl⟩

/-- A bracket that is closed. -/
theorem bracket_append_line {cs : List Char} (line : List Char)
    (h : (delimited .remark .openBracket '[' ']' (fun _ => false) cs).1.role = .token .remark) :
    delimited .remark .openBracket '[' ']' (fun _ => false) (cs ++ '\n' :: line) =
      ((delimited .remark .openBracket '[' ']' (fun _ => false) cs).1,
        (delimited .remark .openBracket '[' ']' (fun _ => false) cs).2 ++ '\n' :: line) := by
  rcases exists_delimited ']' (fun _ => false) cs with ⟨inner, rest, hinner, rfl | ⟨rfl, hrest⟩⟩
  · rw [List.append_assoc, List.cons_append, delimited_of_close _ hinner,
      delimited_of_close _ hinner]
  · rw [delimited_of_cut hinner hrest, delimited.unfinished] at h
    cases inner <;> cases h

/-- The first lexeme of a text is the same if more lines follow the text, unless it is a run of
blanks, which may go on in them, or a bracket that is not closed. -/
theorem first_append_line {c : Char} {cs : List Char} (line : List Char) (hspace : ¬ isSpace c)
    (hbracket : c = '[' → (first c cs).1.role = .token .remark) :
    first c (cs ++ '\n' :: line) = ((first c cs).1, (first c cs).2 ++ '\n' :: line) := by
  have hslash : (cs ++ '\n' :: line).head? = some '/' ↔ cs.head? = some '/' := by
    cases cs <;> simp
  unfold first at hbracket ⊢
  rw [if_neg hspace, if_neg hspace]
  rw [if_neg hspace] at hbracket
  by_cases hname : isNameStart c
  · rw [if_pos hname, if_pos hname]
    exact run_append_line _ rfl c cs line
  rw [if_neg hname, if_neg hname]
  rw [if_neg hname] at hbracket
  by_cases hsingle : c = '\''
  · rw [if_pos hsingle, if_pos hsingle]
    exact delimited_append_line (by simp [hsingle]) rfl cs line
  rw [if_neg hsingle, if_neg hsingle]
  rw [if_neg hsingle] at hbracket
  by_cases hdouble : c = '"'
  · rw [if_pos hdouble, if_pos hdouble]
    exact delimited_append_line (by simp [hdouble]) rfl cs line
  rw [if_neg hdouble, if_neg hdouble]
  rw [if_neg hdouble] at hbracket
  by_cases hopen : c = '['
  · -- Of all tokens only a remark may hold a line feed, so this one has to be closed.
    rw [if_pos hopen] at hbracket
    subst hopen
    rw [if_pos rfl, if_pos rfl]
    exact bracket_append_line line (hbracket rfl)
  rw [if_neg hopen, if_neg hopen]
  simp only [hslash]
  by_cases hcomment : c = '/' ∧ cs.head? = some '/'
  · rw [if_pos hcomment, if_pos hcomment]
    exact run_append_line _ rfl c cs line
  · rw [if_neg hcomment, if_neg hcomment]

end Lexeme

/-! ## All tokens -/

namespace Token

variable {start : Nat}

/-- The token is no bracket without a partner. -/
def IsClosed (t : Token) : Prop :=
  t.text.toList.head? = some '[' → t.kind = .remark

instance : DecidablePred IsClosed :=
  fun _ => inferInstanceAs (Decidable (_ → _))

/-- The tokens behind some blanks. -/
theorem ofText_spaces {blanks : List Char} (h : ∀ c ∈ blanks, Lexeme.isSpace c) (start : Nat)
    (cs : List Char) :
    ofText start (blanks ++ cs) = ofText (start + Text.byteLength blanks) cs := by
  induction blanks generalizing start with
  | nil => rfl
  | cons c blanks ih =>
    rw [List.forall_mem_cons] at h
    rw [List.cons_append, ofText_space h.1, ih h.2, Text.byteLength_cons, Nat.add_assoc]

/-- A bracket in front of a text, if no bracket of the text is without a partner. -/
theorem role_of_isClosed {c : Char} {cs : List Char}
    (hclosed : ∀ t ∈ ofText start (c :: cs), t.IsClosed) (hc : c = '[') :
    (Lexeme.first c cs).1.role = .token .remark := by
  subst hc
  have hrole : ∃ kind, (Lexeme.first '[' cs).1.role = .token kind :=
    Lexeme.role_delimited .remark .openBracket '[' ']' (fun _ => false) cs
  obtain ⟨kind, hkind⟩ := hrole
  obtain ⟨inner, htext⟩ := Lexeme.text_first '[' cs
  rw [ofText_cons, hkind, List.forall_mem_cons, htext, IsClosed, String.toList_ofList] at hclosed
  have hremark : kind = .remark := hclosed.1 rfl
  rw [hkind, hremark]

/-- If all brackets of a text are closed, its tokens stay the first ones when more lines follow
the text. -/
theorem ofText_append_line {cs : List Char} (hclosed : ∀ t ∈ ofText start cs, t.IsClosed)
    (line : List Char) :
    ofText start (cs ++ '\n' :: line) =
      ofText start cs ++ ofText (start + Text.byteLength cs) ('\n' :: line) := by
  induction cs using Lexeme.all.induct generalizing start with
  | case1 =>
    rw [ofText_nil]
    rfl
  | case2 c cs ih =>
    have hlength : Text.byteLength (c :: cs) = Text.byteLength (Lexeme.first c cs).1.text +
        Text.byteLength (Lexeme.first c cs).2 := by
      rw [← Text.byteLength_append, Lexeme.first_append]
    by_cases hspace : Lexeme.isSpace c
    · -- The run of blanks may go on behind the text, but its own part of the run can be passed.
      have hblanks : ∀ d ∈ (Lexeme.first c cs).1.text, Lexeme.isSpace d := by
        rw [Lexeme.first_space hspace, List.forall_mem_cons]
        exact ⟨hspace, fun d hd => List.mem_takeWhile_imp hd⟩
      rw [← Lexeme.first_append c cs, ofText_spaces hblanks] at hclosed
      rw [hlength, ← Lexeme.first_append c cs, List.append_assoc, ofText_spaces hblanks,
        ofText_spaces hblanks, ih hclosed, Nat.add_assoc]
    · have hfirst := Lexeme.first_append_line line hspace (role_of_isClosed hclosed)
      rw [ofText_cons] at hclosed
      rw [List.cons_append, ofText_cons, hfirst, ofText_cons start c cs, hlength, ← Nat.add_assoc]
      generalize Lexeme.first c cs = cut at hclosed ih ⊢
      rcases cut with ⟨⟨role, text⟩, rest⟩
      cases role with
      | blank | comment => exact ih hclosed
      | token kind =>
        rw [List.forall_mem_cons] at hclosed
        exact congrArg (_ :: ·) (ih hclosed.2)

end Token

end Railroad
