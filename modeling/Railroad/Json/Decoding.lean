import Railroad.Json.Reader
import Railroad.Rule
import Railroad.Span

/-!
# Trees, rules and spans from JSON

A record is written as an object, whose members stand in any order among members
that mean nothing, or as a list of its fields.  Lists and objects that are read may
stand inside of each other up to a limit.

Main definitions:

- Definitions {lit}`Node.ofJson`, {lit}`Rule.ofJson`, {lit}`Kind.ofJson`,
  {lit}`Span.ofJson`: reading a whole text.
-/

namespace Railroad.Json

/-- How many lists and objects that are read may stand inside of each other. -/
def maxLevels : Nat := 127

/-! ## Fields -/

/-- A string. -/
def string : Reader String := fun s =>
  match next? s with
  | none => .error .cutOff
  | some (c, r) =>
    if c = '"' then do
      let (cs, r₁) ← stringBody r.1
      return (String.ofList cs, r.after r₁.tail)
    else
      .error (mismatch .string c r.1)

/-- A natural number that fits into 64 bits. -/
def natural : Reader Nat := fun s =>
  match next? s with
  | none => .error .cutOff
  | some (c, r) =>
    if c = '-' ∨ c.isDigit then do
      let (numeral, r₁) ← Numeral.scan c r.1
      match ← numeral.value with
      | .natural n => return (n, r.after r₁.uncons)
      | .negative n => throw (.data (.outOfRange n .size))
      | .real x => throw (.data (.wrongType (NumberValue.real x).found .size))
    else
      .error (mismatch .size c r.1)

/-- A value that has to be null. -/
def unit (s : List Char) : Except Error (Rest s) :=
  match next? s with
  | none => .error .cutOff
  | some (c, r) =>
    if c = 'n' then do
      let t ← word ['u', 'l', 'l'] r.1
      return r.after t
    else
      .error (mismatch .unit c r.1)

/-- The kind with a name that has been read. -/
def kindOf (name : String) : Except Error Kind :=
  match Kind.ofName? name with
  | some kind => .ok kind
  | none => .error (.data (.unknownName name (Kind.all.map Kind.name)))

/-- A kind: its name, or an object in which its name has the value null.  There is
no object if no level is left, and in an object only a name can come first. -/
def kind (levels : Nat) : Reader Kind := fun s =>
  match next? s with
  | none => .error .cutOff
  | some (c, r) =>
    if c = '"' then do
      let (cs, r₁) ← stringBody r.1
      return (← kindOf (String.ofList cs), r.after r₁.tail)
    else if c = '\x7b' ∧ 0 < levels then do
      let start ← mark '"' r.1
      let (cs, r₁) ← stringBody start.1
      let kind ← kindOf (String.ofList cs)
      let r₂ ← mark ':' r₁.1
      let r₃ ← unit r₂.1
      let r₄ ← mark '\x7d' r₃.1
      let behind := (start.after r₁.tail).after (r₂.after (r₃.after r₄.tail).tail).tail
      return (kind, r.after behind.tail)
    else
      .error .malformed

/-- The value of a member, behind the colon. -/
def valueOf {α : Type} (item : Reader α) : Reader α := fun s => do
  let r ← mark ':' s
  let (a, r₁) ← item r.1
  return (a, r.after r₁.tail)

/-- A member that means nothing. -/
def ignored {σ : Type} (gathered : σ) : Reader σ := fun s => do
  let r ← mark ':' s
  let t ← skip .value [] r.1
  return (gathered, r.after t)

/-- A member that must not stand there twice: `old` is its value from before. -/
def once {α : Type} (name : String) (old : Option α) (item : Reader α) : Reader α :=
  if old.isSome then fun _ => .error (.data (.duplicateField name)) else valueOf item

/-- The value of a member that must not be missing. -/
def required {α : Type} (name : String) (value : Option α) : Except Error α :=
  match value with
  | some a => .ok a
  | none => .error (.data (.missingField name))

/-! ## Records -/

/-- A record, written as an object or as a list, by readers for what is behind the
opening character.  No level may be left, in which case there are no readers. -/
def record {α : Type} (wanted : Record) (inside : Option (Reader α × Reader α)) :
    Reader α := fun s =>
  match next? s with
  | none => .error .cutOff
  | some (c, r) =>
    if c = '\x7b' ∨ c = '[' then
      match inside with
      | none => .error .malformed
      | some (ofObject, ofList) => do
        let (a, r₁) ← (if c = '[' then ofList else ofObject) r.1
        return (a, r.after r₁.tail)
    else
      .error (mismatch (.record wanted) c r.1)

/-- The field of a record written as a list, which must not be missing. -/
def listField {α β : Type} (wanted : Record) (position : Nat) (item : Reader α)
    (next : α → Reader β) : Reader β := fun s => do
  match ← element item (position == 0) s with
  | .closing _ => throw (.data (.wrongLength position wanted))
  | .item a r =>
    let (b, r₁) ← next a r.1
    return (b, r.after r₁.tail)

/-- The field of a record written as a list, which is `default` if the list ends. -/
def listFieldOr {α β : Type} (item : Reader α) (default : β) (next : α → Reader β) :
    Reader β := fun s => do
  match ← element item false s with
  | .closing r => return (default, r)
  | .item a r =>
    let (b, r₁) ← next a r.1
    return (b, r.after r₁.tail)

/-- The end of a record written as a list. -/
def listEnd {α : Type} (a : α) : Reader α := fun s => do
  let r ← mark ']' s
  return (a, r)

/-- Gathers the members of an object and makes a record of them. -/
def ofMembers {σ α : Type} (field : String → σ → Reader σ) (start : σ)
    (make : σ → Except Error α) : Reader α := fun s => do
  let (gathered, r) ← members field true start s
  return (← make gathered, r)

/-! ## Trees -/

/-- The members of a tree that have been read. -/
structure NodeFields where
  kind : Option Kind
  value : Option String
  children : Option (List Node)
deriving Inhabited

/-- One member of a tree. -/
def nodeField (levels : Nat) (children : Reader (List Node)) (name : String)
    (gathered : NodeFields) : Reader NodeFields := fun s => do
  match name with
  | "kind" =>
    let (a, r) ← once name gathered.kind (kind levels) s
    return ({ gathered with kind := some a }, r)
  | "value" =>
    let (a, r) ← once name gathered.value string s
    return ({ gathered with value := some a }, r)
  | "children" =>
    let (a, r) ← once name gathered.children children s
    return ({ gathered with children := some a }, r)
  | _ => ignored gathered s

/-- A tree of members.  Only the kind has to be there. -/
def NodeFields.make (fields : NodeFields) : Except Error Node := do
  return ⟨← required "kind" fields.kind, fields.value.getD "", fields.children.getD []⟩

/-- A tree written as a list of its fields. -/
def nodeOfList (levels : Nat) (children : Reader (List Node)) : Reader Node :=
  listField .node 0 (kind levels) fun kind =>
    listFieldOr string ⟨kind, "", []⟩ fun value =>
      listFieldOr children ⟨kind, value, []⟩ fun children =>
        listEnd ⟨kind, value, children⟩

/-- A list of values, by a reader for each of them, if a level is left. -/
def listOf {α : Type} (item : Option (Reader α)) : Reader (List α) := fun s =>
  match next? s with
  | none => .error .cutOff
  | some (c, r) =>
    if c = '[' then
      match item with
      | none => .error .malformed
      | some item => do
        let (as, r₁) ← elements item true r.1
        return (as, r.after r₁.tail)
    else
      .error (mismatch .sequence c r.1)

mutual

/-- A tree whose lists and objects stand inside of each other at most `levels` deep. -/
def node : (levels : Nat) → Reader Node
  | 0 => record .node none
  | levels + 1 =>
    record .node <| some
      (ofMembers (nodeField levels (nodes levels)) ⟨none, none, none⟩ NodeFields.make,
        nodeOfList levels (nodes levels))

/-- A list of such trees. -/
def nodes : (levels : Nat) → Reader (List Node)
  | 0 => listOf none
  | levels + 1 => listOf (some (node levels))

end

/-! ## Rules and spans -/

/-- The members of a rule that have been read. -/
structure RuleFields where
  name : Option String
  root : Option Node
deriving Inhabited

/-- One member of a rule. -/
def ruleField (levels : Nat) (name : String) (gathered : RuleFields) :
    Reader RuleFields := fun s => do
  match name with
  | "name" =>
    let (a, r) ← once name gathered.name string s
    return ({ gathered with name := some a }, r)
  | "root" =>
    let (a, r) ← once name gathered.root (node levels) s
    return ({ gathered with root := some a }, r)
  | _ => ignored gathered s

/-- A rule of members, none of which may be missing. -/
def RuleFields.make (fields : RuleFields) : Except Error Rule := do
  return ⟨← required "name" fields.name, ← required "root" fields.root⟩

/-- A rule whose tree has at most `levels` lists and objects inside of each other. -/
def rule (levels : Nat) : Reader Rule :=
  record .rule <| some
    (ofMembers (ruleField levels) ⟨none, none⟩ RuleFields.make,
      listField .rule 0 string fun name =>
        listField .rule 1 (node levels) fun root => listEnd ⟨name, root⟩)

/-- The members of a span that have been read. -/
structure SpanFields where
  start : Option Nat
  stop : Option Nat
deriving Inhabited

/-- One member of a span. -/
def spanField (name : String) (gathered : SpanFields) : Reader SpanFields := fun s => do
  match name with
  | "start" =>
    let (a, r) ← once name gathered.start natural s
    return ({ gathered with start := some a }, r)
  | "end" =>
    let (a, r) ← once name gathered.stop natural s
    return ({ gathered with stop := some a }, r)
  | _ => ignored gathered s

/-- A span of members, none of which may be missing. -/
def SpanFields.make (fields : SpanFields) : Except Error Span := do
  return ⟨← required "start" fields.start, ← required "end" fields.stop⟩

/-- A span. -/
def span : Reader Span :=
  record .span <| some
    (ofMembers spanField ⟨none, none⟩ SpanFields.make,
      listField .span 0 natural fun start =>
        listField .span 1 natural fun stop => listEnd ⟨start, stop⟩)

/-! ## Whole texts -/

/-- A value that makes up a whole text, except for blanks around it. -/
def whole {α : Type} (item : Reader α) (text : String) : Except Error α := do
  let (a, r) ← item text.toList
  match next? r.1 with
  | none => return a
  | some _ => throw .malformed

end Json

/-- Reads a kind. -/
def Kind.ofJson (text : String) : Except Json.Error Kind :=
  Json.whole (Json.kind Json.maxLevels) text

/-- Reads a tree. -/
def Node.ofJson (text : String) : Except Json.Error Node :=
  Json.whole (Json.node Json.maxLevels) text

/-- Reads a rule. -/
def Rule.ofJson (text : String) : Except Json.Error Rule :=
  Json.whole (Json.rule (Json.maxLevels - 1)) text

/-- Reads a span. -/
def Span.ofJson (text : String) : Except Json.Error Span :=
  Json.whole Json.span text

end Railroad
