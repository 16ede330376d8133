import Mathlib.Data.List.TakeWhile
import Railroad.Proofs.Runs
import Railroad.Token.Lexeme

/-!
# How tokens are spelled

Every kind of token has its own form: names, quoted terminals and bracketed remarks
each follow a pattern, and a punctuation mark is one fixed character.  The tokens
that cutting a text yields have the form of their kind.

Main definitions:

- Definition {lit}`Token.Kind.Spelled`: the form of the tokens of a kind.
- Definition {lit}`Token.symbol`: a token without its place.

Main results:

- Theorem {lit}`Lexeme.spelled_first`: a lexeme that is a token has the form of its kind.
- Theorem {lit}`Token.spelled_of_mem_ofText`: so has every token of a text.
-/

namespace Railroad

/-! ## Forms -/

/-- A letter or underscore, followed by letters, digits, underscores and dashes. -/
def IsIdentifier (cs : List Char) : Prop :=
  ∃ c part, cs = c :: part ∧ Lexeme.isNameStart c ∧ ∀ d ∈ part, Lexeme.isNamePart d

/-- The characters of an identifier are those that can continue one. -/
theorem IsIdentifier.isNamePart {cs : List Char} (h : IsIdentifier cs) :
    ∀ c ∈ cs, Lexeme.isNamePart c = true := by
  rcases h with ⟨c, part, rfl, hc, hpart⟩
  rw [List.forall_mem_cons]
  refine ⟨?_, hpart⟩
  rw [Lexeme.isNameStart, Bool.or_eq_true] at hc
  rw [Lexeme.isNamePart, Char.isAlphanum]
  rcases hc with hc | hc <;> simp [hc]

/-- A single or double quote, characters other than that quote and line feeds, and the
same quote again. -/
def IsQuoted (cs : List Char) : Prop :=
  ∃ quote inner, (quote = '\'' ∨ quote = '"') ∧ cs = quote :: (inner ++ [quote]) ∧
    ∀ c ∈ inner, c ≠ quote ∧ c ≠ '\n'

/-- An opening bracket, characters other than closing brackets, and a closing bracket. -/
def IsBracketed (cs : List Char) : Prop :=
  ∃ inner, cs = '[' :: (inner ++ [']']) ∧ ']' ∉ inner

/-- The form of the tokens of a kind.  Of the faulty kinds, three are a lone opener, and
the last can be any text but the empty one. -/
def Token.Kind.Spelled : Token.Kind → List Char → Prop
  | .identifier, cs => IsIdentifier cs
  | .terminal, cs => IsQuoted cs
  | .remark, cs => IsBracketed cs
  | .colon, cs => cs = [':']
  | .semicolon, cs => cs = [';']
  | .bar, cs => cs = ['|']
  | .plus, cs => cs = ['+']
  | .openParen, cs => cs = ['(']
  | .closeParen, cs => cs = [')']
  | .openBracket, cs => cs = ['[']
  | .singleQuote, cs => cs = ['\'']
  | .doubleQuote, cs => cs = ['"']
  | .malformed, cs => cs ≠ []

/-- The text of a token has the form of its kind. -/
def Token.Spelled (t : Token) : Prop :=
  t.kind.Spelled t.text.toList

/-- A token without its place in the source: its kind and its text. -/
def Token.symbol (t : Token) : Token.Kind × String :=
  (t.kind, t.text)

/-! ## Lexemes -/

namespace Lexeme

variable {kind : Token.Kind}

theorem spelled_mark (c : Char) : ((mark? c).getD .malformed).Spelled [c] := by
  unfold mark?
  split <;> simp [Token.Kind.Spelled]

/-- An opener that meets its partner. -/
theorem delimited_of_close {whole alone : Token.Kind} {opener close : Char} {cut : Char → Bool}
    {inner : List Char} (rest : List Char) (hinner : ∀ c ∈ inner, c ≠ close ∧ cut c = false) :
    delimited whole alone opener close cut (inner ++ close :: rest) =
      (⟨.token whole, opener :: (inner ++ [close])⟩, rest) := by
  have hrun : (inner ++ close :: rest).takeWhile (fun c => c != close && !cut c) = inner ∧
      (inner ++ close :: rest).dropWhile (fun c => c != close && !cut c) = close :: rest :=
    takeWhile_dropWhile_append (by simpa using hinner) (by simp)
  rcases hrun with ⟨htake, hdrop⟩
  rw [delimited, htake, hdrop]
  simp

/-- An opener that meets the end of the text, or a character that it may not cover. -/
theorem delimited_of_cut {whole alone : Token.Kind} {opener close : Char} {cut : Char → Bool}
    {inner rest : List Char} (hinner : ∀ c ∈ inner, c ≠ close ∧ cut c = false)
    (hrest : ∀ c, rest.head? = some c → c ≠ close ∧ cut c = true) :
    delimited whole alone opener close cut (inner ++ rest) =
      (delimited.unfinished alone opener inner, rest) := by
  have hrun : (inner ++ rest).takeWhile (fun c => c != close && !cut c) = inner ∧
      (inner ++ rest).dropWhile (fun c => c != close && !cut c) = rest :=
    takeWhile_dropWhile_append (by simpa using hinner) fun c hc => by simp [hrest c hc]
  rcases hrun with ⟨htake, hdrop⟩
  rw [delimited, htake, hdrop]
  cases rest with
  | nil => rfl
  | cons c rest => simp [(hrest c rfl).1]

/-- There is no third possibility. -/
theorem exists_delimited (close : Char) (cut : Char → Bool) (cs : List Char) :
    ∃ inner rest, (∀ c ∈ inner, c ≠ close ∧ cut c = false) ∧
      (cs = inner ++ close :: rest ∨
        (cs = inner ++ rest ∧ ∀ c, rest.head? = some c → c ≠ close ∧ cut c = true)) := by
  induction cs with
  | nil => exact ⟨[], [], by simp⟩
  | cons c cs ih =>
    by_cases hclose : c = close
    · exact ⟨[], cs, by simp [hclose]⟩
    by_cases hcut : cut c
    · exact ⟨[], c :: cs, by simp [hclose, hcut]⟩
    rcases ih with ⟨inner, rest, hinner, hcs⟩
    refine ⟨c :: inner, rest, ?_, ?_⟩
    · rw [List.forall_mem_cons]
      exact ⟨⟨hclose, by simpa using hcut⟩, hinner⟩
    · rcases hcs with rfl | ⟨rfl, hrest⟩
      · exact .inl rfl
      · exact .inr ⟨rfl, hrest⟩

/-- An opener yields its whole token, or one of the two faulty kinds. -/
theorem spelled_delimited (whole alone : Token.Kind) (opener close : Char) (cut : Char → Bool)
    (cs : List Char)
    (hwhole : ∀ inner : List Char, (∀ c ∈ inner, c ≠ close ∧ cut c = false) →
      whole.Spelled (opener :: (inner ++ [close])))
    (halone : alone.Spelled [opener])
    (hrole : (delimited whole alone opener close cut cs).1.role = .token kind) :
    kind.Spelled (delimited whole alone opener close cut cs).1.text := by
  rcases exists_delimited close cut cs with ⟨inner, rest, hinner, rfl | ⟨rfl, hrest⟩⟩
  · rw [delimited_of_close rest hinner] at hrole ⊢
    cases hrole
    exact hwhole inner hinner
  · rw [delimited_of_cut hinner hrest] at hrole ⊢
    cases inner with
    | nil =>
      cases hrole
      exact halone
    | cons c inner =>
      cases hrole
      exact List.cons_ne_nil _ _

/-- A lexeme that is a token has the form of its kind. -/
theorem spelled_first (c : Char) (cs : List Char) (hrole : (first c cs).1.role = .token kind) :
    kind.Spelled (first c cs).1.text := by
  unfold first at hrole ⊢
  by_cases hspace : isSpace c
  · simp only [hspace, if_true, run] at hrole
    cases hrole
  simp only [hspace, if_false, Bool.false_eq_true] at hrole ⊢
  by_cases hname : isNameStart c
  · simp only [hname, if_true, run] at hrole ⊢
    cases hrole
    exact ⟨c, _, rfl, hname, fun d hd => List.mem_takeWhile_imp hd⟩
  simp only [hname, if_false, Bool.false_eq_true] at hrole ⊢
  by_cases hsingle : c = '\''
  · simp only [hsingle, if_true] at hrole ⊢
    refine spelled_delimited _ _ _ _ _ cs ?_ rfl hrole
    intro inner hinner
    exact ⟨_, inner, .inl rfl, rfl, by simpa using hinner⟩
  simp only [hsingle, if_false] at hrole ⊢
  by_cases hdouble : c = '"'
  · simp only [hdouble, if_true] at hrole ⊢
    refine spelled_delimited _ _ _ _ _ cs ?_ rfl hrole
    intro inner hinner
    exact ⟨_, inner, .inr rfl, rfl, by simpa using hinner⟩
  simp only [hdouble, if_false] at hrole ⊢
  by_cases hbracket : c = '['
  · simp only [hbracket, if_true] at hrole ⊢
    refine spelled_delimited _ _ _ _ _ cs ?_ rfl hrole
    intro inner hinner
    refine ⟨inner, rfl, ?_⟩
    intro hmem
    exact (hinner _ hmem).1 rfl
  simp only [hbracket, if_false] at hrole ⊢
  by_cases hcomment : c = '/' ∧ cs.head? = some '/'
  · rw [if_pos hcomment] at hrole
    cases hrole
  · rw [if_neg hcomment] at hrole ⊢
    cases hrole
    exact spelled_mark c

/-- The lexemes of a text have the form of their kinds. -/
theorem spelled_of_mem_all {cs : List Char} {l : Lexeme} (h : l ∈ all cs)
    (hrole : l.role = .token kind) : kind.Spelled l.text := by
  fun_induction all cs with
  | case1 => simp at h
  | case2 c cs ih =>
    rcases List.mem_cons.mp h with rfl | h
    · exact spelled_first c cs hrole
    · exact ih h

end Lexeme

/-! ## Tokens -/

namespace Token

/-- So have the tokens that are made of them. -/
theorem spelled_of_mem_ofLexemes {start : Nat} {ls : List Lexeme} {t : Token}
    (hls : ∀ l ∈ ls, ∀ kind, l.role = .token kind → kind.Spelled l.text)
    (h : t ∈ ofLexemes start ls) : t.Spelled := by
  induction ls generalizing start with
  | nil => simp [ofLexemes] at h
  | cons l ls ih =>
    rw [List.forall_mem_cons] at hls
    rw [ofLexemes] at h
    cases hrole : l.role with
    | blank =>
      simp only [hrole] at h
      exact ih hls.2 h
    | comment =>
      simp only [hrole] at h
      exact ih hls.2 h
    | token kind =>
      simp only [hrole, List.mem_cons] at h
      rcases h with rfl | h
      · rw [Spelled, String.toList_ofList]
        exact hls.1 kind hrole
      · exact ih hls.2 h

/-- Every token of a text has the form of its kind. -/
theorem spelled_of_mem_ofText {start : Nat} {cs : List Char} {t : Token}
    (h : t ∈ ofText start cs) : t.Spelled := by
  refine spelled_of_mem_ofLexemes ?_ h
  intro l hl kind hrole
  exact Lexeme.spelled_of_mem_all hl hrole

end Token

end Railroad
