import Railroad.Json.Numeral
import Railroad.Text.Slice

/-!
# Reading JSON text

Readers for the parts of JSON text.  A reader looks at a text from its first
character on, and gives a value with the text behind it, or the first problem.
What it leaves is shorter than what it got, which is why loops come to an end.

Main definitions:

- Definition {lit}`Json.Reader`: the type of readers.
- Definitions {lit}`Json.stringBody`, {lit}`Json.members`, {lit}`Json.elements`:
  strings, the members of an object, the elements of a list.
- Definition {lit}`Json.skip`: passing over a value of any shape.
-/

namespace Railroad.Json

/-- Gives a value in front of a text and what is behind it. -/
abbrev Reader (α : Type) : Type := (s : List Char) → Except Error (α × Rest s)

/-! ## Characters -/

/-- The characters that may stand between the parts of JSON text. -/
def isBlank (c : Char) : Bool :=
  c == ' ' || c == '\n' || c == '\t' || c == '\r'

/-- What is behind the first character that is not blank is shorter than the text. -/
theorem length_lt_of_dropWhile_eq {s r : List Char} {c : Char}
    (h : s.dropWhile isBlank = c :: r) : r.length < s.length := by
  have hle := (List.dropWhile_suffix (l := s) isBlank).length_le
  rw [h, List.length_cons] at hle
  omega

/-- The next character that is not blank, and the text behind it. -/
def next? (s : List Char) : Option (Char × Rest s) :=
  match h : s.dropWhile isBlank with
  | [] => none
  | c :: r => some (c, ⟨r, length_lt_of_dropWhile_eq h⟩)

/-- The text behind given characters, which have to stand in front of it. -/
def word : (expected : List Char) → (s : List Char) → Except Error (Tail s)
  | [], s => .ok (.whole s)
  | _ :: _, [] => .error .cutOff
  | e :: es, c :: cs =>
    if c = e then do
      let r ← word es cs
      return (r.behind c).tail
    else
      .error .malformed

/-- The text behind a given mark, which has to be the next character. -/
def mark (expected : Char) (s : List Char) : Except Error (Rest s) :=
  match next? s with
  | none => .error .cutOff
  | some (c, r) => if c = expected then .ok r else .error .malformed

/-! ## Strings -/

/-- The value of a hexadecimal digit. -/
def hexValue? (c : Char) : Option Nat :=
  if c.isDigit then some (c.toNat - '0'.toNat)
  else if 'a' ≤ c ∧ c ≤ 'f' then some (c.toNat - 'a'.toNat + 10)
  else if 'A' ≤ c ∧ c ≤ 'F' then some (c.toNat - 'A'.toNat + 10)
  else none

/-- The number that four hexadecimal digits stand for. -/
def hexNumber? (a b c d : Char) : Option Nat := do
  return (((← hexValue? a) * 16 + (← hexValue? b)) * 16 + (← hexValue? c)) * 16 + (← hexValue? d)

/-- The four hexadecimal digits in front of a text, as a number.  A text of fewer
than four bytes ends too early, whatever its characters are. -/
def hexUnit : Reader Nat
  | a :: b :: c :: d :: r =>
    match hexNumber? a b c d with
    | some n => .ok (n, ⟨r, by simp only [List.length_cons]; omega⟩)
    | none => .error .malformed
  | s => .error (if Text.byteLength s < 4 then .cutOff else .malformed)

/-- Whether a number is the first half of a pair that stands for one character. -/
def isHighHalf (n : Nat) : Bool :=
  0xd800 ≤ n && n ≤ 0xdbff

/-- Whether a number is the second half of such a pair. -/
def isLowHalf (n : Nat) : Bool :=
  0xdc00 ≤ n && n ≤ 0xdfff

/-- The character whose number is escaped in front of a text, behind the letter
that begins the escape.  Numbers above four digits are written in two halves. -/
def numberedChar : Reader Char := fun s => do
  let (high, r) ← hexUnit s
  if isLowHalf high then throw .malformed
  else if isHighHalf high then
    let r₁ ← word ['\\', 'u'] r.1
    let (low, r₂) ← hexUnit r₁.1
    if isLowHalf low then
      let c := Char.ofNat (0x10000 + (high - 0xd800) * 0x400 + (low - 0xdc00))
      return (c, r.after ⟨r₂.1, Nat.le_trans (Nat.le_of_lt r₂.2) r₁.2⟩)
    else throw .malformed
  else return (Char.ofNat high, r)

/-- The character that a single letter behind a backslash stands for. -/
def escaped? : Char → Option Char
  | '"' => some '"'
  | '\\' => some '\\'
  | '/' => some '/'
  | 'b' => some '\x08'
  | 'f' => some '\x0c'
  | 'n' => some '\n'
  | 'r' => some '\r'
  | 't' => some '\t'
  | _ => none

/-- The character that is escaped in front of a text, behind the backslash. -/
def escapedChar : Reader Char
  | [] => .error .cutOff
  | c :: r =>
    match escaped? c with
    | some d => .ok (d, (Tail.whole r).behind c)
    | none =>
      if c = 'u' then do
        let (d, r') ← numberedChar r
        return (d, r'.tail.behind c)
      else
        .error .malformed

/-- The characters of a string whose opening quote has been read. -/
def stringBody (s : List Char) : Except Error (List Char × Rest s) :=
  match s with
  | [] => .error .cutOff
  | c :: r =>
    if c = '"' then .ok ([], (Tail.whole r).behind c)
    else if c = '\\' then do
      let (d, r₁) ← escapedChar r
      let (ds, r₂) ← stringBody r₁.1
      return (d :: ds, (r₁.after r₂.tail).tail.behind c)
    else if c.toNat < 0x20 then .error .malformed
    else do
      let (ds, r₁) ← stringBody r
      return (c :: ds, r₁.tail.behind c)
termination_by s.length
decreasing_by
  · exact Nat.lt_succ_of_lt r₁.2
  · exact Nat.lt_succ_self _

/-! ## Values of the wrong type -/

/-- What stands in front of a text, where the first character `c` is not what was
wanted.  A value that cannot be read itself is the problem instead. -/
def mismatch (wanted : Wanted) (c : Char) (r : List Char) : Error :=
  let found : Except Error Found :=
    if c = 'n' then do
      let _ ← word ['u', 'l', 'l'] r
      return .null
    else if c = 't' then do
      let _ ← word ['r', 'u', 'e'] r
      return .boolean true
    else if c = 'f' then do
      let _ ← word ['a', 'l', 's', 'e'] r
      return .boolean false
    else if c = '-' ∨ c.isDigit then do
      let (numeral, _) ← Numeral.scan c r
      return (← numeral.value).found
    else if c = '"' then do
      let (cs, _) ← stringBody r
      return .string (String.ofList cs)
    else if c = '[' then .ok .list
    else if c = '\x7b' then .ok .object
    else .error .malformed
  match found with
  | .ok found => .data (.wrongType found wanted)
  | .error e => e

/-! ## Lists and objects -/

/-- What may stand at some place of a list. -/
inductive Element (α : Type) (s : List Char) where
  /-- The list ends. -/
  | closing (rest : Rest s)
  /-- Another element. -/
  | item (a : α) (rest : Rest s)

/-- Where the next element of a list begins.  All but the first have a comma in
front of them, and the bracket that ends the list cannot follow a comma. -/
def elementStart (first : Bool) (c : Char) {s : List Char} (r : Rest s) :
    Except Error (Tail s) :=
  if first then .ok (.whole s)
  else if c = ',' then
    match next? r.1 with
    | none => .error .cutOff
    | some (d, _) => if d = ']' then .error .malformed else .ok r.tail
  else .error .malformed

/-- The next element of a list, or its end. -/
def element {α : Type} (item : Reader α) (first : Bool) (s : List Char) :
    Except Error (Element α s) :=
  match next? s with
  | none => .error .cutOff
  | some (c, r) =>
    if c = ']' then .ok (.closing r)
    else do
      let start ← elementStart first c r
      let (a, r') ← item start.1
      return .item a (start.after r')

/-- The elements of a list whose opening bracket has been read. -/
def elements {α : Type} (item : Reader α) (first : Bool) (s : List Char) :
    Except Error (List α × Rest s) := do
  match ← element item first s with
  | .closing r => return ([], r)
  | .item a r =>
    let (as, r') ← elements item false r.1
    return (a :: as, r.after r'.tail)
termination_by s.length
decreasing_by exact r.2

/-- Where the name of the next member of an object begins, behind its opening
quote.  All but the first member have a comma in front of them. -/
def memberStart (first : Bool) (c : Char) {s : List Char} (r : Rest s) :
    Except Error (Rest s) :=
  if first then
    if c = '"' then .ok r else .error .malformed
  else if c = ',' then
    match next? r.1 with
    | none => .error .cutOff
    | some (d, r') => if d = '"' then .ok (r.after r'.tail) else .error .malformed
  else .error .malformed

/-- The members of an object whose opening brace has been read.  `field` reads what
follows the name of a member and adds it to what was gathered before. -/
def members {σ : Type} (field : String → σ → Reader σ) (first : Bool) (gathered : σ)
    (s : List Char) : Except Error (σ × Rest s) :=
  match next? s with
  | none => .error .cutOff
  | some (c, r) =>
    if c = '\x7d' then .ok (gathered, r)
    else do
      let start ← memberStart first c r
      let (name, r₁) ← stringBody start.1
      let (gathered', r₂) ← field (String.ofList name) gathered r₁.1
      let behind := (start.after r₁.tail).after r₂.tail
      let (result, r₃) ← members field false gathered' behind.1
      return (result, behind.after r₃.tail)
termination_by s.length
decreasing_by exact behind.2

/-! ## Passing over values -/

/-- The text behind an escape whose backslash has been read.  The escape need not
stand for a character. -/
def skipEscape : (s : List Char) → Except Error (Rest s)
  | [] => .error .cutOff
  | c :: r =>
    if (escaped? c).isSome then .ok ((Tail.whole r).behind c)
    else if c = 'u' then do
      let (_, r₁) ← hexUnit r
      return r₁.tail.behind c
    else .error .malformed

/-- The text behind a string whose opening quote has been read. -/
def skipString (s : List Char) : Except Error (Rest s) :=
  match s with
  | [] => .error .cutOff
  | c :: r =>
    if c = '"' then .ok ((Tail.whole r).behind c)
    else if c = '\\' then do
      let r₁ ← skipEscape r
      let r₂ ← skipString r₁.1
      return (r₁.after r₂.tail).tail.behind c
    else if c.toNat < 0x20 then .error .malformed
    else do
      let r₁ ← skipString r
      return r₁.tail.behind c
termination_by s.length
decreasing_by
  · exact Nat.lt_succ_of_lt r₁.2
  · exact Nat.lt_succ_self _

/-- A list or an object of which the end has not been read. -/
inductive Open where
  | list
  | object
deriving DecidableEq, Repr, Inhabited

/-- The character that ends a list or an object. -/
def Open.closing : Open → Char
  | list => ']'
  | object => '\x7d'

/-- The text behind a value that is neither a list nor an object, where `c` is its
first character.  A number that cannot be read is malformed wherever it ends. -/
def skipScalar (c : Char) (r : List Char) : Except Error (Rest (c :: r)) :=
  if c = 'n' then (word ['u', 'l', 'l'] r).map (Tail.behind c)
  else if c = 't' then (word ['r', 'u', 'e'] r).map (Tail.behind c)
  else if c = 'f' then (word ['a', 'l', 's', 'e'] r).map (Tail.behind c)
  else if c = '"' then (skipString r).map fun r₁ => r₁.tail.behind c
  else if c = '-' ∨ c.isDigit then
    match Numeral.scan c r with
    | .ok (_, r₁) => .ok r₁
    | .error _ => .error .malformed
  else .error .malformed

/-- Where a value is passed over. -/
inductive Place where
  /-- A value has to follow. -/
  | value
  /-- The name of a member has to follow. -/
  | name
  /-- A list or an object has just begun. -/
  | inside
  /-- A value has just ended. -/
  | behind
deriving DecidableEq, Repr, Inhabited

/-- What a closing character leaves of the open lists and objects, if it may stand
there. -/
def Open.close? (c : Char) : List Open → Option (List Open)
  | [] => none
  | o :: os => if c = o.closing then some os else none

/-- What has to follow inside of the innermost list or object. -/
def Open.part : List Open → Place
  | .object :: _ => .name
  | _ => .value

/-- Counts the steps at a place that take nothing from the text. -/
def Place.weight : Place → Nat
  | .inside => 1
  | _ => 0

/-- Less text is left, at whatever places. -/
theorem Place.measure_lt {m n : Nat} (p q : Place) (h : m < n) :
    2 * m + p.weight < 2 * n + q.weight := by
  cases p <;> cases q <;> simp only [weight] <;> omega

/-- What follows inside of a list or an object is not its beginning. -/
theorem Open.weight_part (around : List Open) : (Open.part around).weight = 0 := by
  unfold Open.part
  split <;> rfl

/-- Passes over what is left of a value inside of the given lists and objects,
innermost first.  They may stand inside of each other as deeply as they like. -/
def skip (place : Place) (around : List Open) (s : List Char) : Except Error (Tail s) :=
  match place with
  | .behind =>
    if around.isEmpty then .ok (.whole s)
    else
      match next? s with
      | none => .error .cutOff
      | some (c, r) =>
        if c = ',' then do
          let t ← skip (Open.part around) around r.1
          return (r.after t).tail
        else
          match Open.close? c around with
          | some os => do
            let t ← skip .behind os r.1
            return (r.after t).tail
          | none => .error .malformed
  | .inside =>
    match next? s with
    | none => .error .cutOff
    | some (c, r) =>
      match Open.close? c around with
      | some os => do
        let t ← skip .behind os r.1
        return (r.after t).tail
      | none => skip (Open.part around) around s
  | .name => do
    let r ← mark '"' s
    let r₁ ← skipString r.1
    let r₂ ← mark ':' r₁.1
    let behind := (r.after r₁.tail).after r₂.tail
    let t ← skip .value around behind.1
    return (behind.after t).tail
  | .value =>
    match next? s with
    | none => .error .cutOff
    | some (c, r) =>
      if c = '[' then do
        let t ← skip .inside (.list :: around) r.1
        return (r.after t).tail
      else if c = '\x7b' then do
        let t ← skip .inside (.object :: around) r.1
        return (r.after t).tail
      else do
        let r₁ ← skipScalar c r.1
        let behind := r.after r₁.uncons
        let t ← skip .behind around behind.1
        return (behind.after t).tail
termination_by 2 * s.length + place.weight
decreasing_by
  · exact Place.measure_lt _ _ r.2
  · exact Place.measure_lt _ _ r.2
  · exact Place.measure_lt _ _ r.2
  · exact Nat.add_lt_add_left (by rw [Open.weight_part]; exact Nat.one_pos) _
  · exact Place.measure_lt _ _ behind.2
  · exact Place.measure_lt _ _ r.2
  · exact Place.measure_lt _ _ r.2
  · exact Place.measure_lt _ _ behind.2

end Railroad.Json
