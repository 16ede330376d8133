import Railroad.Json.Encoding
import Railroad.Proofs.Json.Scalars

/-!
# Written lists and objects are read back

What a reader makes of a written value does not depend on the blanks in front of the
value, nor on what follows it.  The outcome for a written list comes from the outcomes
for its elements, and that for a written object from those for its members.

Main definitions:

- Definition {lit}`Json.Yields`: a reader has some result for a written value.
- Definition {lit}`Json.Member`: a written member of an object, with its effect.

Main results:

- Theorem {lit}`Json.yields_list`: lists of written elements.
- Theorem {lit}`Json.yields_object`: objects of written members.
-/

namespace Railroad.Json

variable {α β σ : Type} {layout : Layout}

/-- A reader has the given result for a written value, whatever blanks stand in front
of it and whatever follows it. -/
def Yields (item : Reader α) (text : List Char) (result : Except Error α) : Prop :=
  ∀ blanks rest, (∀ c ∈ blanks, isBlank c = true) → EndsNumber rest →
    outcome item (blanks ++ (text ++ rest)) = result.map fun a => (a, rest)

/-! ## Layouts -/

/-- Line breaks of a layout are blank. -/
theorem isBlank_of_mem_lineBreak (layout : Layout) (level : Nat) :
    ∀ c ∈ layout.lineBreak level, isBlank c = true := by
  cases layout with
  | compact => simp [Layout.lineBreak]
  | pretty =>
    rw [Layout.lineBreak, List.forall_mem_cons]
    refine ⟨rfl, ?_⟩
    intro c hc
    rw [List.eq_of_mem_replicate hc]
    rfl

/-- So is what a layout puts behind a colon. -/
theorem exists_colon_eq (layout : Layout) :
    ∃ blanks, layout.colon = ':' :: blanks ∧ ∀ c ∈ blanks, isBlank c = true := by
  cases layout with
  | compact => exact ⟨[], rfl, by simp⟩
  | pretty => exact ⟨[' '], rfl, by simp [isBlank]⟩

theorem endsNumber_comma (t : List Char) : EndsNumber (',' :: t) := by
  rintro c ⟨⟩
  decide

/-- The characters that end lists and objects do not continue a number. -/
theorem endsNumber_closing (layout : Layout) {closing : Char}
    (h : closing = ']' ∨ closing = '\x7d') (level : Nat) (t : List Char) :
    EndsNumber (layout.lineBreak level ++ closing :: t) := by
  cases layout with
  | compact =>
    rintro c ⟨⟩
    rcases h with rfl | rfl <;> decide
  | pretty =>
    rintro c ⟨⟩
    decide

/-- Nor does what stands behind a part of a list or an object. -/
theorem endsNumber_restOf (layout : Layout) {closing : Char}
    (h : closing = ']' ∨ closing = '\x7d') (inner outer : Nat) (parts : List (List Char))
    (t : List Char) :
    EndsNumber (restOf layout inner parts ++ (layout.lineBreak outer ++ closing :: t)) := by
  cases parts with
  | nil => exact endsNumber_closing layout h outer t
  | cons part parts => exact endsNumber_comma _

/-- A list or an object is a bracket and what stands behind it. -/
theorem enclose_cons_append (level : Nat) (opening closing : Char) (part : List Char)
    (parts : List (List Char)) (t : List Char) :
    enclose layout level opening closing (part :: parts) ++ t =
      opening :: (layout.lineBreak (level + 1) ++ (part ++
        (restOf layout (level + 1) parts ++ (layout.lineBreak level ++ closing :: t)))) := by
  simp [enclose]

theorem restOf_cons_append (level : Nat) (part : List Char) (parts : List (List Char))
    (t : List Char) :
    restOf layout level (part :: parts) ++ t =
      ',' :: (layout.lineBreak level ++ (part ++ (restOf layout level parts ++ t))) := by
  simp [restOf]

/-! ## Strings and kinds -/

/-- A quoted text is read back as a string. -/
theorem yields_string (value : String) : Yields string (quote value) (.ok value) := by
  intro blanks rest hblanks hrest
  rw [quote, List.cons_append, List.append_assoc,
    outcome_string (dropWhile_blanks_append hblanks rfl _), List.singleton_append,
    outcome_stringBody_escapes, ok_bind]
  simp only [String.ofList_toList]
  rfl

/-- The name of a kind is read back as the kind. -/
theorem yields_kind (levels : Nat) (k : Kind) : Yields (kind levels) (quote k.name) (.ok k) := by
  intro blanks rest hblanks hrest
  rw [quote, List.cons_append, List.append_assoc,
    outcome_kind (dropWhile_blanks_append hblanks rfl _), List.singleton_append,
    outcome_stringBody_escapes, ok_bind]
  simp only [String.ofList_toList, kindOf, Kind.ofName?_name]
  rfl

/-- A number that fits into 64 bits is read back. -/
theorem yields_natural {n : Nat} (h : n < 2 ^ 64) : Yields natural (number n) (.ok n) :=
  fun _ _ hblanks hrest => outcome_natural_number h hblanks hrest

/-! ## Lists -/

/-- A written value that is neither empty nor begins like the end of a list. -/
def OpensValue (text : List Char) : Prop :=
  ∃ c t, text = c :: t ∧ isBlank c = false ∧ c ≠ ']'

/-- Behind blanks, a value that opens is not taken for the end of a list. -/
theorem OpensValue.exists_dropWhile_eq {text blanks : List Char} (h : OpensValue text)
    (hblanks : ∀ c ∈ blanks, isBlank c = true) (rest : List Char) :
    ∃ c t, (blanks ++ (text ++ rest)).dropWhile isBlank = c :: t ∧ c ≠ ']' := by
  rcases h with ⟨c, t, rfl, hblank, hc⟩
  exact ⟨c, t ++ rest, dropWhile_blanks_append hblanks hblank _, hc⟩

section Lists

variable {item : Reader β} {text : α → List Char} {result : α → Except Error β} {as : List α}

/-- The elements behind the first one. -/
theorem outcome_elements_restOf (hyields : ∀ a ∈ as, Yields item (text a) (result a))
    (hopens : ∀ a ∈ as, OpensValue (text a)) (inner outer : Nat) (t : List Char) :
    outcome (elements item false)
        (restOf layout inner (as.map text) ++ (layout.lineBreak outer ++ ']' :: t)) =
      (as.mapM result).map fun bs => (bs, t) := by
  induction as with
  | nil =>
    have hbreak := isBlank_of_mem_lineBreak layout outer
    exact outcome_elements_closing (dropWhile_blanks_append hbreak rfl t)
  | cons a as ih =>
    rw [List.forall_mem_cons] at hyields hopens
    have hbreak := isBlank_of_mem_lineBreak layout inner
    rcases hopens.1.exists_dropWhile_eq hbreak
      (restOf layout inner (as.map text) ++ (layout.lineBreak outer ++ ']' :: t))
      with ⟨c, u, hnext, hc⟩
    rw [List.map_cons, restOf_cons_append, outcome_elements_next rfl hnext hc,
      hyields.1 _ _ hbreak (endsNumber_restOf layout (.inl rfl) _ _ _ _), List.mapM_cons]
    cases result a with
    | error e => rfl
    | ok b =>
      simp only [Except.map, ok_bind, ih hyields.2 hopens.2]
      cases as.mapM result <;> rfl

/-- A written list is read as what its elements are read as, up to the first one that
cannot be read. -/
theorem yields_list (layout : Layout) (level : Nat)
    (hyields : ∀ a ∈ as, Yields item (text a) (result a))
    (hopens : ∀ a ∈ as, OpensValue (text a)) :
    Yields (listOf (some item)) (list layout level (as.map text)) (as.mapM result) := by
  intro blanks rest hblanks hrest
  cases as with
  | nil =>
    rw [list, List.map_nil, enclose, List.cons_append,
      outcome_listOf (dropWhile_blanks_append hblanks rfl _)]
    exact outcome_elements_closing rfl
  | cons a as =>
    rcases (hopens a List.mem_cons_self).exists_dropWhile_eq
      (isBlank_of_mem_lineBreak layout (level + 1))
      (restOf layout (level + 1) (as.map text) ++ (layout.lineBreak level ++ ']' :: rest))
      with ⟨c, u, hnext, hc⟩
    rw [list, List.map_cons, enclose_cons_append,
      outcome_listOf (dropWhile_blanks_append hblanks rfl _), outcome_elements_first hnext hc,
      ← restOf_cons_append, ← List.map_cons]
    exact outcome_elements_restOf hyields hopens _ _ _

end Lists

/-! ## Objects -/

/-- A written member of an object: its name, the text of its value, and what reading the
value makes of the values that were gathered before. -/
structure Member (σ : Type) where
  name : String
  text : List Char
  result : σ → Except Error σ

/-- The text of a member. -/
def Member.written (layout : Layout) (m : Member σ) : List Char :=
  member layout m.name m.text

/-- A member is its name between quotes, a colon and the text of its value. -/
theorem Member.written_append (m : Member σ) (t : List Char) :
    m.written layout ++ t =
      '"' :: (m.name.toList.flatMap escape ++ '"' :: ((layout.colon ++ m.text) ++ t)) := by
  simp [written, member, quote]

/-- What reading members one after the other gathers. -/
def Member.gather (ms : List (Member σ)) (start : σ) : Except Error σ :=
  ms.foldlM (fun gathered m => m.result gathered) start

theorem Member.gather_cons (m : Member σ) (ms : List (Member σ)) (start : σ) :
    gather (m :: ms) start = m.result start >>= gather ms := by
  rw [gather, List.foldlM_cons]
  rfl

/-- A value behind the colon of a member. -/
theorem yields_valueOf (layout : Layout) {item : Reader α} {text : List Char} {result : Except Error α}
    (h : Yields item text result) :
    Yields (valueOf item) (layout.colon ++ text) result := by
  intro blanks rest hblanks hrest
  rcases exists_colon_eq layout with ⟨gap, hcolon, hgap⟩
  rw [hcolon, List.cons_append, List.cons_append, List.append_assoc,
    outcome_valueOf (dropWhile_blanks_append hblanks rfl _)]
  exact h gap rest hgap hrest

section Objects

variable {field : String → σ → Reader σ} {ms : List (Member σ)}

/-- The members behind the first one. -/
theorem outcome_members_restOf
    (h : ∀ m ∈ ms, ∀ gathered,
      Yields (field m.name gathered) (layout.colon ++ m.text) (m.result gathered))
    (inner outer : Nat) (gathered : σ) (t : List Char) :
    outcome (members field false gathered)
        (restOf layout inner (ms.map (Member.written layout)) ++
          (layout.lineBreak outer ++ '\x7d' :: t)) =
      (Member.gather ms gathered).map fun a => (a, t) := by
  induction ms generalizing gathered with
  | nil =>
    have hbreak := isBlank_of_mem_lineBreak layout outer
    exact outcome_members_closing (dropWhile_blanks_append hbreak rfl t)
  | cons m ms ih =>
    rw [List.forall_mem_cons] at h
    have hbreak := isBlank_of_mem_lineBreak layout inner
    rw [List.map_cons, restOf_cons_append, Member.written_append,
      outcome_members_next rfl (dropWhile_blanks_append hbreak rfl _),
      outcome_stringBody_escapes, ok_bind]
    have hbehind : EndsNumber (restOf layout inner (ms.map (Member.written layout)) ++
        (layout.lineBreak outer ++ '\x7d' :: t)) :=
      endsNumber_restOf layout (.inr rfl) inner outer _ t
    have hvalue := h.1 gathered [] _ (by simp) hbehind
    rw [List.nil_append] at hvalue
    rw [Member.gather_cons]
    simp only [String.ofList_toList, hvalue]
    cases m.result gathered with
    | error e => rfl
    | ok gathered' => exact ih h.2 gathered'

/-- A written object is read as what its members are read as together. -/
theorem yields_object (wanted : Record) (start : σ) (make : σ → Except Error α)
    (ofList : Reader α) (level : Nat) (hne : ms ≠ [])
    (h : ∀ m ∈ ms, ∀ gathered,
      Yields (field m.name gathered) (layout.colon ++ m.text) (m.result gathered)) :
    Yields (record wanted (some (ofMembers field start make, ofList)))
      (object layout level (ms.map (Member.written layout)))
      (Member.gather ms start >>= make) := by
  intro blanks rest hblanks hrest
  obtain ⟨m, ms, rfl⟩ := List.exists_cons_of_ne_nil hne
  have hbreak := isBlank_of_mem_lineBreak layout (level + 1)
  rw [object, List.map_cons, enclose_cons_append,
    outcome_record (dropWhile_blanks_append hblanks rfl _), outcome_ofMembers,
    Member.written_append, outcome_members_first (dropWhile_blanks_append hbreak rfl _),
    ← Member.written_append, ← restOf_cons_append, ← List.map_cons,
    outcome_members_restOf h]
  cases Member.gather (m :: ms) start with
  | error e => rfl
  | ok gathered => cases make gathered <;> rfl

/-- A written object is malformed where no level is left. -/
theorem yields_object_none {wanted : Record} {parts : List (List Char)} (hne : parts ≠ [])
    (level : Nat) :
    Yields (record wanted (none : Option (Reader α × Reader α))) (object layout level parts)
      (.error .malformed) := by
  intro blanks rest hblanks hrest
  obtain ⟨part, parts, rfl⟩ := List.exists_cons_of_ne_nil hne
  rw [object, enclose_cons_append]
  exact outcome_record_none (dropWhile_blanks_append hblanks rfl _)

end Objects

end Railroad.Json
