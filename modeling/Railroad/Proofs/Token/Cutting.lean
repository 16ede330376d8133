import Railroad.Proofs.Token.Spelling

/-!
# What lies between tokens

The tokens of a text do not overlap, and between them there is nothing but blanks and
comments.  Every token has the form of its kind and does not go on in the text behind
it.  This module says so without the cutting of texts, and shows that cutting keeps to
it.

Main definitions:

- Definition {lit}`Token.Kind.Followed`: what may stand behind a token of a kind.
- Definition {lit}`Skipped`: blanks and comments.
- Definition {lit}`Token.Cuts`: a text falls into tokens and skipped text.

Main results:

- Theorem {lit}`Lexeme.fits_first`: what the first lexeme of a text is, and what follows
  it.
- Theorem {lit}`Token.cuts_ofText`: cutting a text yields its tokens.
- Theorem {lit}`Token.Cuts.exists_place`: where a token stands.
- Theorem {lit}`Token.Cuts.pairwise`: tokens stand one behind the other.
-/

namespace Railroad

/-! ## What stands behind a token -/

/-- There is no text left, or it begins with a line feed. -/
def AtLineEnd (rest : List Char) : Prop :=
  ∀ c, rest.head? = some c → c = '\n'

/-- An opener whose partner is missing, with something behind it: a bracket and all of
the text that is left, or a quote and all that is left of its line. -/
def IsUnclosed (text rest : List Char) : Prop :=
  (∃ inner, text = '[' :: inner ∧ inner ≠ [] ∧ ']' ∉ inner ∧ rest = []) ∨
    ∃ quote inner, (quote = '\'' ∨ quote = '"') ∧ text = quote :: inner ∧ inner ≠ [] ∧
      (∀ c ∈ inner, c ≠ quote ∧ c ≠ '\n') ∧ AtLineEnd rest

/-- One character with which neither a token nor skipped text begins. -/
def IsStray (text rest : List Char) : Prop :=
  ∃ c, text = [c] ∧ Lexeme.isSpace c = false ∧ Lexeme.isNameStart c = false ∧
    Lexeme.mark? c = none ∧ c ∉ ['\'', '"', '['] ∧ ¬(c = '/' ∧ rest.head? = some '/')

/-- The text behind a token of a kind: a name does not go on there, and there is nothing
to read behind a lone opener.  A malformed token is an opener without a partner or a
stray character. -/
def Token.Kind.Followed : Token.Kind → List Char → List Char → Prop
  | .identifier, _, rest => ∀ c, rest.head? = some c → Lexeme.isNamePart c = false
  | .openBracket, _, rest => rest = []
  | .singleQuote, _, rest => AtLineEnd rest
  | .doubleQuote, _, rest => AtLineEnd rest
  | .malformed, text, rest => IsUnclosed text rest ∨ IsStray text rest
  | _, _, _ => True

/-! ## The first lexeme -/

namespace Lexeme

/-- What a lexeme is, and what stands behind it. -/
def Fits (l : Lexeme) (rest : List Char) : Prop :=
  match l.role with
  | .blank => ∀ c ∈ l.text, isSpace c
  | .comment => (∃ inner, l.text = '/' :: '/' :: inner ∧ '\n' ∉ inner) ∧ AtLineEnd rest
  | .token kind => kind.Followed l.text rest

/-- What follows a run of characters does not belong to it. -/
theorem eq_false_of_head?_dropWhile {p : Char → Bool} {cs : List Char} {c : Char}
    (h : (cs.dropWhile p).head? = some c) : p c = false := by
  have hhead := List.head?_dropWhile_not p cs
  rw [h] at hhead
  simpa using hhead

/-- A run of spaces fits in front of whatever ends it. -/
theorem fits_space {c : Char} (hc : isSpace c) (cs : List Char) :
    (run .blank isSpace c cs).1.Fits (run .blank isSpace c cs).2 := by
  change ∀ d ∈ c :: cs.takeWhile isSpace, isSpace d
  rw [List.forall_mem_cons]
  exact ⟨hc, fun d hd => List.mem_takeWhile_imp hd⟩

/-- A comment fits in front of the line feed that ends it, or of nothing. -/
theorem fits_comment {cs : List Char} (hcs : cs.head? = some '/') :
    (run .comment (· != '\n') '/' cs).1.Fits (run .comment (· != '\n') '/' cs).2 := by
  match cs with
  | d :: cs =>
    obtain rfl : d = '/' := by simpa using hcs
    refine ⟨⟨cs.takeWhile (· != '\n'), by simp [run], ?_⟩, ?_⟩
    · intro hmem
      simpa using List.mem_takeWhile_imp hmem
    · intro c hc
      have hrest : (cs.dropWhile (· != '\n')).head? = some c := hc
      simpa using eq_false_of_head?_dropWhile hrest

/-- The lexeme of an opener, if both ends of an unfinished one are as they should be. -/
theorem fits_delimited {whole alone : Token.Kind} {opener close : Char} {cut : Char → Bool}
    (cs : List Char) (hwhole : ∀ text rest, whole.Followed text rest)
    (halone : ∀ rest : List Char,
      (∀ c, rest.head? = some c → c ≠ close ∧ cut c = true) → alone.Followed [opener] rest)
    (hunclosed : ∀ inner rest : List Char, inner ≠ [] → (∀ c ∈ inner, c ≠ close ∧ cut c = false) →
      (∀ c, rest.head? = some c → c ≠ close ∧ cut c = true) → IsUnclosed (opener :: inner) rest) :
    (delimited whole alone opener close cut cs).1.Fits
      (delimited whole alone opener close cut cs).2 := by
  rcases exists_delimited close cut cs with ⟨inner, rest, hinner, rfl | ⟨rfl, hrest⟩⟩
  · rw [delimited_of_close rest hinner]
    exact hwhole _ _
  · rw [delimited_of_cut hinner hrest]
    cases inner with
    | nil => exact halone rest hrest
    | cons c inner => exact .inl (hunclosed _ rest (List.cons_ne_nil _ _) hinner hrest)

/-- A quote, whole or unfinished. -/
theorem fits_quote {quote : Char} (alone : Token.Kind) (hquote : quote = '\'' ∨ quote = '"')
    (halone : ∀ rest, AtLineEnd rest → alone.Followed [quote] rest) (cs : List Char) :
    (delimited .terminal alone quote quote (· == '\n') cs).1.Fits
      (delimited .terminal alone quote quote (· == '\n') cs).2 := by
  have hline {rest : List Char}
      (h : ∀ c, rest.head? = some c → c ≠ quote ∧ (c == '\n') = true) : AtLineEnd rest := by
    intro c hc
    simpa using (h c hc).2
  apply fits_delimited
  · intro text rest
    trivial
  · intro rest hrest
    exact halone rest (hline hrest)
  · intro inner rest hne hinner hrest
    exact .inr ⟨quote, inner, hquote, rfl, hne, by simpa using hinner, hline hrest⟩

/-- A bracket, whole or unfinished. -/
theorem fits_bracket (cs : List Char) :
    (delimited .remark .openBracket '[' ']' (fun _ => false) cs).1.Fits
      (delimited .remark .openBracket '[' ']' (fun _ => false) cs).2 := by
  have hend {rest : List Char}
      (h : ∀ c, rest.head? = some c → c ≠ ']' ∧ false = true) : rest = [] := by
    cases rest with
    | nil => rfl
    | cons c rest => simpa using h c rfl
  apply fits_delimited
  · intro text rest
    trivial
  · intro rest hrest
    exact hend hrest
  · intro inner rest hne hinner hrest
    exact .inl ⟨inner, rfl, hne, fun hmem => (hinner _ hmem).1 rfl, hend hrest⟩

/-- A mark may be followed by anything. -/
theorem followed_mark {c : Char} {kind : Token.Kind} (h : mark? c = some kind)
    (text rest : List Char) : kind.Followed text rest := by
  unfold mark? at h
  split at h <;> cases h <;> trivial

/-- What the first lexeme of a text is, and what stands behind it. -/
theorem fits_first (c : Char) (cs : List Char) : (first c cs).1.Fits (first c cs).2 := by
  unfold first
  by_cases hspace : isSpace c
  · rw [if_pos hspace]
    exact fits_space hspace cs
  rw [if_neg hspace]
  by_cases hname : isNameStart c
  · rw [if_pos hname]
    intro d hd
    exact eq_false_of_head?_dropWhile hd
  rw [if_neg hname]
  by_cases hsingle : c = '\''
  · rw [if_pos hsingle]
    exact fits_quote .singleQuote (.inl hsingle) (fun _ h => h) cs
  rw [if_neg hsingle]
  by_cases hdouble : c = '"'
  · rw [if_pos hdouble]
    exact fits_quote .doubleQuote (.inr hdouble) (fun _ h => h) cs
  rw [if_neg hdouble]
  by_cases hbracket : c = '['
  · rw [if_pos hbracket, hbracket]
    exact fits_bracket cs
  rw [if_neg hbracket]
  by_cases hcomment : c = '/' ∧ cs.head? = some '/'
  · rw [if_pos hcomment, hcomment.1]
    exact fits_comment hcomment.2
  rw [if_neg hcomment]
  cases hmark : mark? c with
  | some kind => exact followed_mark hmark _ _
  | none =>
    exact .inr ⟨c, rfl, by simpa using hspace, by simpa using hname, hmark,
      by simp [hsingle, hdouble, hbracket], hcomment⟩

end Lexeme

/-! ## Falling into tokens -/

/-- Text that is no token and stands in front of `rest`: blanks, and comments that run up
to the end of their line. -/
inductive Skipped (rest : List Char) : List Char → Prop
  | nil : Skipped rest []
  | blank {c : Char} {gap : List Char} (hc : Lexeme.isSpace c) (h : Skipped rest gap) :
      Skipped rest (c :: gap)
  | comment {inner gap : List Char} (hinner : '\n' ∉ inner) (hend : AtLineEnd (gap ++ rest))
      (h : Skipped rest gap) : Skipped rest ('/' :: '/' :: (inner ++ gap))

namespace Token

/-- A text whose first byte has the offset `start` falls into tokens and skipped text
between them.  Each token covers the bytes of its text and has the form of its kind. -/
inductive Cuts : Nat → List Char → List Token → Prop
  | done {start : Nat} {gap : List Char} (hgap : Skipped [] gap) : Cuts start gap []
  | token {start : Nat} {gap rest : List Char} {t : Token} {ts : List Token}
      (hgap : Skipped (t.text.toList ++ rest) gap)
      (hstart : t.span.start = start + Text.byteLength gap)
      (hstop : t.span.stop = t.span.start + Text.byteLength t.text.toList)
      (hspelled : t.Spelled) (hfollowed : t.kind.Followed t.text.toList rest)
      (h : Cuts t.span.stop rest ts) : Cuts start (gap ++ (t.text.toList ++ rest)) (t :: ts)

/-- More skipped text in front. -/
theorem Cuts.skip {start : Nat} {front cs : List Char} {ts : List Token}
    (hfront : ∀ gap rest, cs = gap ++ rest → Skipped rest gap → Skipped rest (front ++ gap))
    (h : Cuts (start + Text.byteLength front) cs ts) : Cuts start (front ++ cs) ts := by
  cases h with
  | done hgap => exact .done (hfront _ [] (List.append_nil _).symm hgap)
  | @token _ gap rest t ts hgap hstart hstop hspelled hfollowed h =>
    rw [← List.append_assoc]
    refine .token (hfront gap _ rfl hgap) ?_ hstop hspelled hfollowed h
    rw [hstart, Text.byteLength_append, Nat.add_assoc]

/-- A token in front. -/
theorem Cuts.front {start : Nat} {text rest : List Char} {kind : Kind} {ts : List Token}
    (hspelled : kind.Spelled text) (hfollowed : kind.Followed text rest)
    (h : Cuts (start + Text.byteLength text) rest ts) :
    Cuts start (text ++ rest)
      (⟨kind, String.ofList text, ⟨start, start + Text.byteLength text⟩⟩ :: ts) := by
  obtain ⟨value, rfl⟩ : ∃ value : String, text = value.toList :=
    ⟨String.ofList text, String.toList_ofList.symm⟩
  rw [String.ofList_toList]
  let t : Token := ⟨kind, value, ⟨start, start + Text.byteLength value.toList⟩⟩
  have htoken : Cuts start ([] ++ (t.text.toList ++ rest)) (t :: ts) :=
    .token .nil rfl rfl hspelled hfollowed h
  exact htoken

/-- Spaces in front of skipped text are skipped as well. -/
theorem skipped_blanks {text rest gap : List Char} (htext : ∀ c ∈ text, Lexeme.isSpace c)
    (h : Skipped rest gap) : Skipped rest (text ++ gap) := by
  induction text with
  | nil => exact h
  | cons c text ih =>
    rw [List.forall_mem_cons] at htext
    exact .blank htext.1 (ih htext.2)

/-- Cutting a text yields its tokens, and skips nothing but blanks and comments. -/
theorem cuts_ofText (start : Nat) (cs : List Char) : Cuts start cs (ofText start cs) := by
  induction cs using Lexeme.all.induct generalizing start with
  | case1 =>
    rw [ofText, Lexeme.all, ofLexemes]
    exact .done .nil
  | case2 c cs ih =>
    have happend := Lexeme.first_append c cs
    have hfits := Lexeme.fits_first c cs
    have hspelled {kind : Kind} (hrole : (Lexeme.first c cs).1.role = .token kind) :=
      Lexeme.spelled_first c cs hrole
    rw [ofText, Lexeme.all, ofLexemes, ← ofText, ← happend]
    generalize Lexeme.first c cs = cut at happend hfits hspelled ih ⊢
    obtain ⟨⟨role, text⟩, rest⟩ := cut
    cases role with
    | blank => exact Cuts.skip (fun _ _ _ => skipped_blanks hfits) (ih _)
    | comment =>
      obtain ⟨⟨inner, rfl, hinner⟩, hend⟩ := hfits
      refine Cuts.skip ?_ (ih _)
      intro gap rest hrest hgap
      subst hrest
      exact .comment hinner hend hgap
    | token kind => exact .front (hspelled rfl) hfits (ih _)

/-- Cutting a source yields its tokens. -/
theorem cuts_ofSource (source : String) : Cuts 0 source.toList (ofSource source) :=
  cuts_ofText 0 source.toList

/-! ## Places of tokens -/

theorem ne_nil_of_spelled {kind : Kind} {cs : List Char} (h : kind.Spelled cs) : cs ≠ [] := by
  rintro rfl
  cases kind <;> simp [Kind.Spelled, IsIdentifier, IsQuoted, IsBracketed] at h

/-- A token of a text stands at its place in the text, with its form. -/
theorem Cuts.exists_place {start : Nat} {cs : List Char} {ts : List Token} (h : Cuts start cs ts)
    {t : Token} (ht : t ∈ ts) :
    ∃ front rest, cs = front ++ (t.text.toList ++ rest) ∧
      t.span.start = start + Text.byteLength front ∧
      t.span.stop = t.span.start + Text.byteLength t.text.toList ∧
      t.Spelled ∧ t.kind.Followed t.text.toList rest := by
  induction h with
  | done hgap => simp at ht
  | @token start gap rest first ts hgap hstart hstop hspelled hfollowed h ih =>
    rcases List.mem_cons.mp ht with rfl | ht
    · exact ⟨gap, rest, rfl, hstart, hstop, hspelled, hfollowed⟩
    · rcases ih ht with ⟨front, behind, rfl, hstart', hplace⟩
      refine ⟨gap ++ (first.text.toList ++ front), behind, by simp, ?_, hplace⟩
      rw [hstart', hstop, hstart, Text.byteLength_append, Text.byteLength_append]
      omega

/-- A token covers some bytes, all of which the text has. -/
theorem Cuts.span_bounds {start : Nat} {cs : List Char} {ts : List Token} (h : Cuts start cs ts)
    {t : Token} (ht : t ∈ ts) :
    start ≤ t.span.start ∧ t.span.start < t.span.stop ∧
      t.span.stop ≤ start + Text.byteLength cs := by
  rcases h.exists_place ht with ⟨front, rest, rfl, hstart, hstop, hspelled, -⟩
  have hpos : 0 < Text.byteLength t.text.toList :=
    Text.byteLength_pos (ne_nil_of_spelled hspelled)
  simp only [Text.byteLength_append]
  omega

/-- The bytes that a token covers are those of its text. -/
theorem Cuts.slice?_eq {cs : List Char} {ts : List Token} (h : Cuts 0 cs ts) {t : Token}
    (ht : t ∈ ts) : Text.slice? cs t.span = some t.text.toList := by
  rcases h.exists_place ht with ⟨front, rest, rfl, hstart, hstop, -⟩
  have hspan : t.span = ⟨Text.byteLength front,
      Text.byteLength front + Text.byteLength t.text.toList⟩ := by
    rw [← Nat.zero_add (Text.byteLength front), ← hstart, ← hstop]
  rw [hspan, ← List.append_assoc]
  exact Text.slice?_append front t.text.toList rest

/-- Tokens stand one behind the other. -/
theorem Cuts.pairwise {start : Nat} {cs : List Char} {ts : List Token} (h : Cuts start cs ts) :
    ts.Pairwise fun t u => t.span.stop ≤ u.span.start := by
  induction h with
  | done hgap => exact .nil
  | token hgap hstart hstop hspelled hfollowed h ih =>
    refine .cons ?_ ih
    intro u hu
    exact (h.span_bounds hu).1

/-- Two tokens are the same, or one stands behind the other. -/
theorem Cuts.eq_or_apart {start : Nat} {cs : List Char} {ts : List Token} (h : Cuts start cs ts)
    {t u : Token} (ht : t ∈ ts) (hu : u ∈ ts) :
    t = u ∨ t.span.stop ≤ u.span.start ∨ u.span.stop ≤ t.span.start := by
  induction h with
  | done hgap => simp at ht
  | token hgap hstart hstop hspelled hfollowed h ih =>
    rcases List.mem_cons.mp ht with rfl | ht'
    · rcases List.mem_cons.mp hu with rfl | hu'
      · exact .inl rfl
      · exact .inr (.inl (h.span_bounds hu').1)
    · rcases List.mem_cons.mp hu with rfl | hu'
      · exact .inr (.inr (h.span_bounds ht').1)
      · exact ih ht' hu'

end Token

end Railroad
