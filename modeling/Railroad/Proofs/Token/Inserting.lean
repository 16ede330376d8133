import Railroad.Proofs.Refusals
import Railroad.Proofs.Token.Cutting
import Railroad.Proofs.Token.Restarting
import Railroad.Proofs.Token.Writing

/-!
# Inserting blanks and comments

If blanks and comments are put between the tokens of a text, the text keeps its tokens.  A
comment must be put in together with the line feed that ends it.  It may then stand
anywhere between two tokens, also next to other comments, and in front of the first token
and behind the last.

Only texts without faulty tokens are like that: a quote that is not closed ends at the next
line feed.

Main definitions:

- Definition {lit}`Filler`: blanks and whole comments.
- Definition {lit}`Token.IsEdge`: the places between tokens.

Main results:

- Theorem {lit}`Token.symbols_skipped`: skipped text has no tokens.
- Theorem {lit}`Token.Cuts.exists_split`: the tokens in front of some text do not depend on
  it, unless it continues a name.
- Theorem {lit}`Token.exists_insertAt?_eq`: a text keeps its tokens.
-/

namespace Railroad

/-! ## Blanks and comments -/

/-- Blanks, and comments with the line feeds that end them, in any order. -/
inductive Filler : List Char → Prop
  | nil : Filler []
  | blank {c : Char} {w : List Char} (hc : Lexeme.isSpace c) (h : Filler w) : Filler (c :: w)
  | comment {inner w : List Char} (hinner : '\n' ∉ inner) (h : Filler w) :
      Filler ('/' :: '/' :: (inner ++ '\n' :: w))

/-- Blanks and comments that are ended are skipped in front of any text. -/
theorem Filler.skipped {w : List Char} (h : Filler w) (rest : List Char) : Skipped rest w := by
  induction h with
  | nil => exact .nil
  | blank hc h ih => exact .blank hc ih
  | comment hinner h ih =>
    refine .comment hinner ?_ (.blank rfl ih)
    rintro c ⟨⟩
    rfl

namespace Skipped

variable {gap rest : List Char}

/-- What is skipped in front of skipped text is skipped together with it. -/
theorem append {w : List Char} (h : Skipped (w ++ rest) gap) (hw : Skipped rest w) :
    Skipped rest (gap ++ w) := by
  induction h with
  | nil => exact hw
  | blank hc h ih => exact .blank hc ih
  | @comment inner gap hinner hend h ih =>
    rw [List.cons_append, List.cons_append, List.append_assoc]
    refine .comment hinner ?_ ih
    rwa [List.append_assoc]

/-- Skipped text in front of a token ends its comments itself, so that it is skipped in front
of any other text as well. -/
theorem of_head?_ne (h : Skipped rest gap) {c : Char} (hhead : rest.head? = some c)
    (hc : c ≠ '\n') (rest' : List Char) : Skipped rest' gap := by
  induction h with
  | nil => exact .nil
  | blank hd h ih => exact .blank hd ih
  | @comment inner gap hinner hend h ih =>
    refine .comment hinner ?_ ih
    cases gap with
    | nil => exact absurd (hend c hhead) hc
    | cons d gap => exact hend

/-- Skipped text does not continue a name. -/
theorem isNamePart_of_head? (h : Skipped rest gap) {c : Char} (hc : gap.head? = some c) :
    Lexeme.isNamePart c = false := by
  cases h with
  | nil => cases hc
  | blank hspace h =>
    cases hc
    simp only [Lexeme.isSpace, Bool.or_eq_true, beq_iff_eq] at hspace
    rcases hspace with ((rfl | rfl) | rfl) | rfl <;> rfl
  | comment hinner hend h =>
    cases hc
    rfl

end Skipped

/-- The line on which blanks and comments begin may belong to a comment in front of them. -/
theorem Filler.skipped_dropWhile {w : List Char} (h : Filler w) :
    Skipped [] (w.dropWhile (· != '\n')) := by
  induction h with
  | nil => exact .nil
  | @blank c w hc h ih =>
    by_cases hline : c = '\n'
    · rw [List.dropWhile_cons_of_neg (by simp [hline])]
      exact .blank hc (h.skipped [])
    · rw [List.dropWhile_cons_of_pos (by simp [hline])]
      exact ih
  | @comment inner w hinner h ih =>
    have hclean : ∀ c ∈ '/' :: '/' :: inner, (c != '\n') = true := by
      intro c hc
      simp only [List.mem_cons] at hc
      rcases hc with rfl | rfl | hc
      · rfl
      · rfl
      · rw [bne_iff_ne]
        rintro rfl
        exact hinner hc
    have hdrop : ('/' :: '/' :: (inner ++ '\n' :: w)).dropWhile (· != '\n') = '\n' :: w :=
      (takeWhile_dropWhile_append hclean (by simp)).2
    rw [hdrop]
    exact .blank rfl (h.skipped [])

/-- Blanks and comments behind the end of a text, where the last comment of the text may go on
in them. -/
theorem Skipped.append_filler {gap w : List Char} (h : Skipped [] gap) (hw : Filler w) :
    Skipped [] (gap ++ w) := by
  induction h with
  | nil => exact hw.skipped []
  | blank hc h ih => exact .blank hc ih
  | @comment inner gap hinner hend h ih =>
    rw [List.cons_append, List.cons_append, List.append_assoc]
    cases gap with
    | nil =>
      -- Nothing ends the comment, so it goes on up to the first line feed behind it.
      have hline : inner ++ ([] ++ w) =
          (inner ++ w.takeWhile (· != '\n')) ++ w.dropWhile (· != '\n') := by
        rw [List.nil_append, List.append_assoc, List.takeWhile_append_dropWhile]
      rw [hline]
      refine .comment ?_ ?_ hw.skipped_dropWhile
      · rw [List.mem_append, not_or]
        refine ⟨hinner, ?_⟩
        intro hmem
        simpa using List.mem_takeWhile_imp hmem
      · rw [List.append_nil]
        intro c hc
        simpa using Lexeme.eq_false_of_head?_dropWhile hc
    | cons c gap => exact .comment hinner hend ih

/-! ## Texts in front of others -/

namespace Lexeme

/-- A comment is one lexeme up to the end of its line. -/
theorem first_comment {inner rest : List Char} (hinner : '\n' ∉ inner) (hend : AtLineEnd rest) :
    first '/' ('/' :: (inner ++ rest)) = (⟨.comment, '/' :: '/' :: inner⟩, rest) := by
  have hclean : ∀ c ∈ '/' :: inner, (c != '\n') = true := by
    intro c hc
    rw [bne_iff_ne]
    rintro rfl
    simp [hinner] at hc
  have hrest : ∀ c, rest.head? = some c → (c != '\n') = false := by
    intro c hc
    simp [hend c hc]
  obtain ⟨htake, hdrop⟩ := takeWhile_dropWhile_append hclean hrest
  have hfirst : first '/' ('/' :: (inner ++ rest)) =
      run .comment (· != '\n') '/' (('/' :: inner) ++ rest) := rfl
  rw [hfirst, run, htake, hdrop]

end Lexeme

namespace Token

/-- A comment has no tokens. -/
theorem symbols_comment {inner rest : List Char} (hinner : '\n' ∉ inner)
    (hend : AtLineEnd rest) : symbols ('/' :: '/' :: (inner ++ rest)) = symbols rest := by
  rw [symbols, ofText_cons, Lexeme.first_comment hinner hend, map_symbol_ofText]

/-- Skipped text has no tokens. -/
theorem symbols_skipped {gap rest : List Char} (h : Skipped rest gap) :
    symbols (gap ++ rest) = symbols rest := by
  induction h with
  | nil => rfl
  | blank hc h ih => rw [List.cons_append, symbols_space hc, ih]
  | comment hinner hend h ih =>
    rw [List.cons_append, List.cons_append, List.append_assoc, symbols_comment hinner hend, ih]

/-- The text does not continue a name. -/
def EndsName (rest : List Char) : Prop :=
  ∀ c, rest.head? = some c → Lexeme.isNamePart c = false

/-- A token that is not faulty does not begin with a line feed. -/
theorem exists_head?_of_spelled {t : Token} (hspelled : t.Spelled) (hkind : ¬t.kind.IsFaulty)
    (rest : List Char) : ∃ c, (t.text.toList ++ rest).head? = some c ∧ c ≠ '\n' := by
  rw [Spelled] at hspelled
  cases h : t.kind <;> rw [h] at hspelled hkind
  case identifier =>
    obtain ⟨c, part, htext, hc, -⟩ := hspelled
    refine ⟨c, by simp [htext], ?_⟩
    rintro rfl
    cases hc
  case terminal =>
    obtain ⟨quote, inner, hquote, htext, -⟩ := hspelled
    refine ⟨quote, by simp [htext], ?_⟩
    rcases hquote with rfl | rfl <;> decide
  case remark =>
    obtain ⟨inner, htext, -⟩ := hspelled
    exact ⟨'[', by simp [htext], by decide⟩
  case openBracket | singleQuote | doubleQuote | malformed => exact absurd trivial hkind
  case colon | semicolon | bar | plus | openParen | closeParen =>
    have htext : t.text.toList = _ := hspelled
    rw [htext]
    exact ⟨_, rfl, by decide⟩

/-- A token that is not faulty is cut from a text that it begins, unless it is a name that
goes on there. -/
theorem symbols_token {t : Token} (hspelled : t.Spelled) (hkind : ¬t.kind.IsFaulty)
    {rest : List Char} (hrest : t.kind = .identifier → EndsName rest) :
    symbols (t.text.toList ++ rest) = t.symbol :: symbols rest := by
  have hsymbol : t.symbol = (t.kind, String.ofList t.text.toList) := by
    rw [String.ofList_toList, symbol]
  have hmark {c : Char} (htext : t.text.toList = [c]) (hc : Lexeme.mark? c = some t.kind) :
      symbols (t.text.toList ++ rest) = t.symbol :: symbols rest := by
    rw [hsymbol, htext]
    exact writes_mark hc rest
  rw [Spelled] at hspelled
  cases h : t.kind <;> rw [h] at hspelled hkind
  case identifier =>
    obtain ⟨c, part, htext, hc, hpart⟩ := hspelled
    rw [hsymbol, htext, List.cons_append, h]
    exact symbols_of_first_eq (Lexeme.first_name hc hpart (hrest h))
  case terminal =>
    rw [hsymbol, h]
    exact writes_terminal hspelled rest
  case remark =>
    rw [hsymbol, h]
    exact writes_remark hspelled rest
  case openBracket | singleQuote | doubleQuote | malformed => exact absurd trivial hkind
  case colon | semicolon | bar | plus | openParen | closeParen =>
    refine hmark hspelled ?_
    rw [h]
    rfl

/-- The tokens in front of some text do not depend on it, unless it continues a name. -/
theorem Cuts.exists_split {start : Nat} {cs : List Char} {read left : List Token}
    (h : Cuts start cs (read ++ left)) (hread : ∀ t ∈ read, ¬t.kind.IsFaulty) :
    ∃ front rest, cs = front ++ rest ∧ lastStop start read = start + Text.byteLength front ∧
      Cuts (lastStop start read) rest left ∧
      ∀ rest', rest' = rest ∨ EndsName rest' →
        symbols (front ++ rest') = read.map symbol ++ symbols rest' := by
  induction read generalizing start cs with
  | nil => exact ⟨[], cs, rfl, rfl, h, fun _ _ => rfl⟩
  | cons t read ih =>
    rw [List.forall_mem_cons] at hread
    cases h with
    | @token _ gap behind _ _ hgap hstart hstop hspelled hfollowed h =>
      obtain ⟨front, rest, rfl, hlast, hcuts, hsymbols⟩ := ih h hread.2
      obtain ⟨c, hhead, hc⟩ := exists_head?_of_spelled hspelled hread.1 (front ++ rest)
      refine ⟨gap ++ (t.text.toList ++ front), rest, by simp, ?_, ?_, ?_⟩
      · rw [lastStop_cons, hlast, hstop, hstart, Text.byteLength_append, Text.byteLength_append]
        omega
      · rw [lastStop_cons]
        exact hcuts
      · intro rest' hrest'
        -- What stands behind the token is old text, or the text that may differ.
        have hname : t.kind = .identifier → EndsName (front ++ rest') := by
          intro hkind
          rw [hkind] at hfollowed
          cases front with
          | nil =>
            rcases hrest' with rfl | hrest'
            · exact hfollowed
            · exact hrest'
          | cons d front => exact hfollowed
        rw [List.append_assoc, List.append_assoc, symbols_skipped (hgap.of_head?_ne hhead hc _),
          symbols_token hspelled hread.1 hname, hsymbols rest' hrest', List.map_cons,
          List.cons_append]

end Token

/-! ## Inserting -/

/-- The text with `w` in it behind its first `k` bytes, when the cut falls between
characters. -/
def Text.insertAt? (k : Nat) (w cs : List Char) : Option (List Char) :=
  (takeBytes? k cs).bind fun front => (dropBytes? k cs).map fun back => front ++ (w ++ back)

/-- A text is put between the parts of another one at the byte length of the first part. -/
theorem Text.insertAt?_byteLength (front back w : List Char) :
    insertAt? (byteLength front) w (front ++ back) = some (front ++ (w ++ back)) := by
  rw [insertAt?, takeBytes?_byteLength, dropBytes?_byteLength]
  rfl

namespace Token

/-- An offset at which no token is split: the beginning or the end of a source, or the start
or the stop of a token. -/
def IsEdge (source : String) (k : Nat) : Prop :=
  k = 0 ∨ k = Text.byteLength source.toList ∨
    ∃ t ∈ ofSource source, k = t.span.start ∨ k = t.span.stop

/-- The last token ends where it ends itself. -/
theorem lastStop_concat (start : Nat) (ts : List Token) (t : Token) :
    lastStop start (ts ++ [t]) = t.span.stop := by
  rw [lastStop, List.getLast?_concat]
  rfl

/-- Skipped text keeps the texts on both of its sides apart. -/
theorem eq_nil_or_endsName {gap rest : List Char} (h : Skipped rest gap) (back : List Char) :
    gap = [] ∨ EndsName (gap ++ back) := by
  cases gap with
  | nil => exact .inl rfl
  | cons c gap =>
    right
    rintro d ⟨⟩
    exact h.isNamePart_of_head? rfl

variable {source : String} {k : Nat} {front gap back w : List Char} {read : List Token}

/-- Insertion behind text of which the tokens are known, and behind skipped text. -/
theorem symbols_insert (hsymbols : ∀ rest, rest = gap ++ back ∨ EndsName rest →
      symbols (front ++ rest) = read.map symbol ++ symbols rest)
    (hgap : ∀ rest, Skipped rest gap) (hw : Filler w) :
    symbols (front ++ gap ++ (w ++ back)) = symbols (front ++ (gap ++ back)) := by
  have hboth : Skipped back (gap ++ w) := (hgap _).append (hw.skipped back)
  have hrest : gap ++ (w ++ back) = gap ++ back ∨ EndsName (gap ++ (w ++ back)) := by
    rw [← List.append_assoc]
    rcases eq_nil_or_endsName hboth back with hnil | hends
    · rw [List.append_eq_nil_iff] at hnil
      rw [hnil.1, hnil.2]
      exact .inl rfl
    · exact .inr hends
  rw [List.append_assoc, hsymbols _ hrest, hsymbols _ (.inl rfl), symbols_skipped (hgap _),
    symbols_skipped (hgap _), symbols_skipped (hw.skipped back)]

/-- Insertion at the start of a token. -/
theorem symbols_insert_start (hsound : ∀ t ∈ ofSource source, ¬t.kind.IsFaulty) (hw : Filler w)
    {t : Token} (ht : t ∈ ofSource source) :
    ∃ front back, source.toList = front ++ back ∧ t.span.start = Text.byteLength front ∧
      symbols (front ++ (w ++ back)) = symbols source.toList := by
  obtain ⟨before, after, htokens⟩ := List.append_of_mem ht
  have hcuts := cuts_ofSource source
  rw [htokens] at hcuts hsound
  have hbefore : ∀ u ∈ before, ¬u.kind.IsFaulty := fun u hu =>
    hsound u (List.mem_append_left _ hu)
  obtain ⟨front, rest, hsource, hlast, hrest, hsymbols⟩ := hcuts.exists_split hbefore
  cases hrest with
  | @token _ gap behind _ _ hgap hstart hstop hspelled hfollowed h =>
    obtain ⟨c, hhead, hc⟩ := exists_head?_of_spelled hspelled (hsound t (by simp)) behind
    refine ⟨front ++ gap, t.text.toList ++ behind, ?_, ?_, ?_⟩
    · rw [hsource, List.append_assoc]
    · rw [hstart, hlast, Text.byteLength_append, Nat.zero_add]
    · rw [hsource]
      exact symbols_insert hsymbols (hgap.of_head?_ne hhead hc) hw

/-- Insertion at the stop of a token. -/
theorem symbols_insert_stop (hsound : ∀ t ∈ ofSource source, ¬t.kind.IsFaulty) (hw : Filler w)
    {t : Token} (ht : t ∈ ofSource source) :
    ∃ front back, source.toList = front ++ back ∧ t.span.stop = Text.byteLength front ∧
      symbols (front ++ (w ++ back)) = symbols source.toList := by
  obtain ⟨before, after, htokens⟩ := List.append_of_mem ht
  rw [List.append_cons] at htokens
  have hcuts := cuts_ofSource source
  rw [htokens] at hcuts hsound
  have hread : ∀ u ∈ before ++ [t], ¬u.kind.IsFaulty := fun u hu =>
    hsound u (List.mem_append_left _ hu)
  obtain ⟨front, rest, hsource, hlast, -, hsymbols⟩ := hcuts.exists_split hread
  rw [lastStop_concat, Nat.zero_add] at hlast
  have hbehind : ∀ rest', rest' = [] ++ rest ∨ EndsName rest' →
      symbols (front ++ rest') = (before ++ [t]).map symbol ++ symbols rest' := hsymbols
  have hinsert := symbols_insert hbehind (fun _ => .nil) hw
  rw [List.append_nil, List.nil_append, ← hsource] at hinsert
  exact ⟨front, rest, hsource, hlast, hinsert⟩

/-- Insertion behind all text, also behind a comment that is not ended. -/
theorem symbols_insert_end (hsound : ∀ t ∈ ofSource source, ¬t.kind.IsFaulty) (hw : Filler w) :
    symbols (source.toList ++ w) = symbols source.toList := by
  have hcuts := cuts_ofSource source
  rw [← List.append_nil (ofSource source)] at hcuts
  obtain ⟨front, rest, hsource, -, hrest, hsymbols⟩ := hcuts.exists_split hsound
  cases hrest with
  | done hgap =>
    have hskipped {gap : List Char} (h : Skipped [] gap) : symbols gap = [] := by
      rw [← List.append_nil gap, symbols_skipped h, symbols_nil]
    have hboth := hgap.append_filler hw
    have hends : rest ++ w = rest ∨ EndsName (rest ++ w) := by
      rcases eq_nil_or_endsName hboth [] with hnil | hends
      · rw [List.append_eq_nil_iff] at hnil
        rw [hnil.1, hnil.2]
        exact .inl rfl
      · rw [List.append_nil] at hends
        exact .inr hends
    rw [hsource, List.append_assoc, hsymbols _ hends, hsymbols _ (.inl rfl), hskipped hboth,
      hskipped hgap]

/-- A text without faulty tokens keeps its tokens when blanks and comments are inserted where
they split none. -/
theorem exists_insertAt?_eq (hsound : ∀ t ∈ ofSource source, ¬t.kind.IsFaulty)
    (hk : IsEdge source k) (hw : Filler w) :
    ∃ text, Text.insertAt? k w source.toList = some text ∧
      symbols text = symbols source.toList := by
  have hat {front back : List Char} (hsource : source.toList = front ++ back)
      (hlength : k = Text.byteLength front)
      (h : symbols (front ++ (w ++ back)) = symbols source.toList) :
      ∃ text, Text.insertAt? k w source.toList = some text ∧
        symbols text = symbols source.toList := by
    refine ⟨_, ?_, h⟩
    rw [hsource, hlength]
    exact Text.insertAt?_byteLength front back w
  rcases hk with hzero | hend | ⟨t, ht, hstart | hstop⟩
  · have hsource : source.toList = [] ++ source.toList := rfl
    exact hat hsource hzero (symbols_skipped (hw.skipped _))
  · refine hat (List.append_nil _).symm hend ?_
    rw [List.append_nil]
    exact symbols_insert_end hsound hw
  · obtain ⟨front, back, hsource, hlength, h⟩ := symbols_insert_start hsound hw ht
    exact hat hsource (hstart.trans hlength) h
  · obtain ⟨front, back, hsource, hlength, h⟩ := symbols_insert_stop hsound hw ht
    exact hat hsource (hstop.trans hlength) h

end Token

end Railroad
