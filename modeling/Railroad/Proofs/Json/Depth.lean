import Mathlib.Data.List.Forall2
import Railroad.Json.Encoding
import Railroad.Proofs.Height

/-!
# How deep JSON text nests

The depth of a text is the highest number of lists and objects that are open at one of its
characters.  Brackets in strings do not count, so the characters of strings are told apart
from the others, escaped quotes included.

Main definitions:

- Definition {lit}`Json.depth`: the depth of a text.

Main results:

- Theorem {lit}`Json.depth_node`: the depth of a written tree, by its height.
- Theorem {lit}`Json.depth_rule`: the depth of a written rule.
-/

namespace Railroad.Json

/-! ## Scanning -/

/-- Where a character of a text stands. -/
inductive Region where
  | outside
  | string
  /-- Behind a backslash in a string. -/
  | escaped
deriving DecidableEq, Repr, Inhabited

/-- What has been counted up to some place of a text. -/
structure Scan where
  region : Region
  /-- The lists and objects that are open. -/
  level : Nat
  /-- The most that have been open. -/
  deepest : Nat
deriving DecidableEq, Repr, Inhabited

/-- One more character. -/
def Scan.step : Scan → Char → Scan
  | ⟨.outside, level, deepest⟩, c =>
    if c = '"' then ⟨.string, level, deepest⟩
    else if c = '[' ∨ c = '\x7b' then ⟨.outside, level + 1, max deepest (level + 1)⟩
    else if c = ']' ∨ c = '\x7d' then ⟨.outside, level - 1, deepest⟩
    else ⟨.outside, level, deepest⟩
  | ⟨.string, level, deepest⟩, c =>
    if c = '"' then ⟨.outside, level, deepest⟩
    else if c = '\\' then ⟨.escaped, level, deepest⟩
    else ⟨.string, level, deepest⟩
  | ⟨.escaped, level, deepest⟩, _ => ⟨.string, level, deepest⟩

/-- How deep a text nests lists and objects. -/
def depth (text : String) : Nat :=
  (text.toList.foldl Scan.step ⟨.outside, 0, 0⟩).deepest

/-- A part of a text that closes whatever it opens, and nests `k` deep by itself. -/
def Deepens (text : List Char) (k : Nat) : Prop :=
  ∀ level deepest, level ≤ deepest →
    text.foldl Scan.step ⟨.outside, level, deepest⟩ = ⟨.outside, level, max deepest (level + k)⟩

/-- The depth of a text that closes all it opens. -/
theorem depth_eq {text : String} {k : Nat} (h : Deepens text.toList k) : depth text = k := by
  rw [depth, h 0 0 (Nat.le_refl 0)]
  simp

/-! ## Parts of a text -/

/-- Of two parts in a row the deeper one counts. -/
theorem Deepens.append {s t : List Char} {j k : Nat} (hs : Deepens s j) (ht : Deepens t k) :
    Deepens (s ++ t) (max j k) := by
  intro level deepest hle
  rw [List.foldl_append, hs level deepest hle, ht level _ (by omega)]
  congr 1
  omega

/-- Text without quotes and brackets. -/
theorem deepens_zero {text : List Char} (h : ∀ c ∈ text, c ∉ ['"', '[', ']', '\x7b', '\x7d']) :
    Deepens text 0 := by
  intro level deepest hle
  induction text with
  | nil =>
    rw [Nat.add_zero, Nat.max_eq_left hle]
    rfl
  | cons c text ih =>
    rw [List.forall_mem_cons] at h
    simp only [List.mem_cons, List.not_mem_nil, or_false, not_or] at h
    rw [List.foldl_cons, Scan.step, if_neg h.1.1, if_neg (by simp [h.1]), if_neg (by simp [h.1])]
    exact ih (by simpa using h.2)

/-- A line break of a layout opens nothing. -/
theorem deepens_lineBreak (layout : Layout) (level : Nat) : Deepens (layout.lineBreak level) 0 := by
  apply deepens_zero
  intro c hc
  cases layout with
  | compact => cases hc
  | pretty =>
    rw [Layout.lineBreak, List.mem_cons] at hc
    rcases hc with rfl | hc
    · decide
    · rw [List.eq_of_mem_replicate hc]
      decide

theorem deepens_colon (layout : Layout) : Deepens layout.colon 0 := by
  apply deepens_zero
  cases layout <;> simp [Layout.colon]

/-- The characters for a character of a string leave the string open. -/
theorem foldl_escape (c : Char) (level deepest : Nat) :
    (escape c).foldl Scan.step ⟨.string, level, deepest⟩ = ⟨.string, level, deepest⟩ := by
  have hdigit {n : Nat} (h : n < 16) : hexDigit n ≠ '"' ∧ hexDigit n ≠ '\\' := by
    have hall : ∀ n < 16, hexDigit n ≠ '"' ∧ hexDigit n ≠ '\\' := by decide
    exact hall n h
  unfold escape
  split_ifs with hquote hslash hline hreturn htab hback hfeed hcontrol
  · rfl
  · rfl
  · rfl
  · rfl
  · rfl
  · rfl
  · rfl
  · -- Only the digits of this escape are not fixed characters.
    have hhigh := hdigit (n := c.toNat / 16) (by omega)
    have hlow := hdigit (n := c.toNat % 16) (by omega)
    simp [Scan.step, hhigh, hlow]
  · simp [Scan.step, hquote, hslash]

/-- A quoted text opens nothing, whichever brackets are in it. -/
theorem deepens_quote (s : String) : Deepens (quote s) 0 := by
  intro level deepest hle
  have hbody (cs : List Char) : (cs.flatMap escape).foldl Scan.step ⟨.string, level, deepest⟩ =
      ⟨.string, level, deepest⟩ := by
    induction cs with
    | nil => rfl
    | cons c cs ih => rw [List.flatMap_cons, List.foldl_append, foldl_escape, ih]
  have hopen : Scan.step ⟨.outside, level, deepest⟩ '"' = ⟨.string, level, deepest⟩ := rfl
  rw [quote, List.foldl_cons, hopen, List.foldl_append, hbody, Nat.add_zero, Nat.max_eq_left hle]
  rfl

/-- A member nests as deep as its value. -/
theorem deepens_member {value : List Char} {k : Nat} (layout : Layout) (name : String)
    (h : Deepens value k) : Deepens (member layout name value) k := by
  have hfront := ((deepens_quote name).append (deepens_colon layout)).append h
  simpa only [member, Nat.max_self, Nat.zero_max] using hfront

/-! ## Lists and objects -/

/-- Parts with a comma in front of each. -/
theorem deepens_restOf (layout : Layout) (level : Nat) {parts : List (List Char)} {ks : List Nat}
    (h : List.Forall₂ Deepens parts ks) :
    Deepens (restOf layout level parts) (ks.foldr max 0) := by
  induction h with
  | nil => exact deepens_zero (by simp [restOf])
  | @cons part k parts ks hpart _ ih =>
    have hcomma : Deepens [','] 0 := deepens_zero (by simp)
    have hfront := (hcomma.append ((deepens_lineBreak layout level).append hpart)).append ih
    simpa [restOf] using hfront

/-- Brackets around a text put it one level deeper. -/
theorem deepens_brackets {opening closing : Char} {text : List Char} {k : Nat}
    (hopening : opening = '[' ∨ opening = '\x7b') (hclosing : closing = ']' ∨ closing = '\x7d')
    (h : Deepens text k) : Deepens (opening :: (text ++ [closing])) (k + 1) := by
  intro level deepest hle
  have hopen : Scan.step ⟨.outside, level, deepest⟩ opening =
      ⟨.outside, level + 1, max deepest (level + 1)⟩ := by
    rcases hopening with rfl | rfl <;> rfl
  have hclose (d : Nat) : Scan.step ⟨.outside, level + 1, d⟩ closing = ⟨.outside, level, d⟩ := by
    rcases hclosing with rfl | rfl <;> rfl
  rw [List.foldl_cons, hopen, List.foldl_append, h _ _ (by omega), List.foldl_cons, hclose]
  simp only [List.foldl_nil, Scan.mk.injEq, true_and]
  omega

/-- A list or an object is one level deeper than the deepest of its parts. -/
theorem deepens_enclose (layout : Layout) (level : Nat) {opening closing : Char}
    (hopening : opening = '[' ∨ opening = '\x7b') (hclosing : closing = ']' ∨ closing = '\x7d')
    {parts : List (List Char)} {ks : List Nat} (h : List.Forall₂ Deepens parts ks) :
    Deepens (enclose layout level opening closing parts) (ks.foldr max 0 + 1) := by
  cases h with
  | nil =>
    have hempty : Deepens [] 0 := deepens_zero (by simp)
    exact deepens_brackets hopening hclosing hempty
  | @cons part k parts ks hpart hparts =>
    have hinside := (((deepens_lineBreak layout (level + 1)).append hpart).append
      (deepens_restOf layout (level + 1) hparts)).append (deepens_lineBreak layout level)
    simpa [enclose] using deepens_brackets hopening hclosing hinside

/-! ## Trees and rules -/

/-- The deepest of some trees is the highest one. -/
theorem foldr_max_heights (trees : List Node) :
    (trees.map fun tree => 2 * tree.height - 1).foldr max 0 = 2 * Node.heightAll trees - 1 := by
  induction trees with
  | nil => rfl
  | cons tree trees ih =>
    rw [List.map_cons, List.foldr_cons, ih, Node.heightAll]
    omega

/-- A list of written trees nests two levels deep for each level of their height. -/
theorem deepens_list_encode (layout : Layout) (level : Nat) {trees : List Node} (hne : trees ≠ [])
    (h : ∀ tree ∈ trees, Deepens (tree.encode layout (level + 1)) (2 * tree.height - 1)) :
    Deepens (list layout level (trees.map (Node.encode layout (level + 1))))
      (2 * Node.heightAll trees) := by
  have hparts : List.Forall₂ Deepens (trees.map (Node.encode layout (level + 1)))
      (trees.map fun tree => 2 * tree.height - 1) := by
    rw [List.forall₂_map_left_iff, List.forall₂_map_right_iff, List.forall₂_same]
    exact h
  have hpos : 0 < Node.heightAll trees := by
    obtain ⟨tree, trees, rfl⟩ := List.exists_cons_of_ne_nil hne
    have := tree.height_pos
    rw [Node.heightAll]
    omega
  have hlist := deepens_enclose layout level (.inl rfl) (.inl rfl) hparts
  rw [foldr_max_heights, Nat.sub_add_cancel (by omega)] at hlist
  exact hlist

/-- A tree nests two levels deep for each level of its height, but for the lowest, which has no
list of children. -/
theorem deepens_encode (layout : Layout) (level : Nat) (tree : Node) :
    Deepens (tree.encode layout level) (2 * tree.height - 1) := by
  induction tree using Node.childrenInduction generalizing level with
  | node tree ih =>
    rcases tree with ⟨kind, value, trees⟩
    have hkind : Deepens (member layout "kind" (quote kind.name)) 0 :=
      deepens_member layout _ (deepens_quote _)
    have hvalue : Deepens (member layout "value" (quote value)) 0 :=
      deepens_member layout _ (deepens_quote _)
    have hheight : 2 * Node.height ⟨kind, value, trees⟩ - 1 = 2 * Node.heightAll trees + 1 := by
      rw [Node.height_eq]
      dsimp only
      omega
    rw [hheight]
    -- Whether the value is written or not, only the children can nest more deeply.
    cases trees with
    | nil =>
      rw [Node.encode, object, Node.heightAll]
      by_cases hempty : value = ""
      · simpa [hempty] using deepens_enclose layout level (.inr rfl) (.inr rfl)
          (.cons hkind .nil)
      · simpa [hempty] using deepens_enclose layout level (.inr rfl) (.inr rfl)
          (.cons hkind (.cons hvalue .nil))
    | cons first trees =>
      have hchildren := deepens_member layout "children" <|
        deepens_list_encode layout (level + 1) (List.cons_ne_nil first trees)
          fun child hmem => ih child hmem (level + 2)
      rw [← Node.encodeAll_eq_map] at hchildren
      rw [Node.encode, object]
      by_cases hempty : value = ""
      · simpa [hempty] using deepens_enclose layout level (.inr rfl) (.inr rfl)
          (.cons hkind (.cons hchildren .nil))
      · simpa [hempty] using deepens_enclose layout level (.inr rfl) (.inr rfl)
          (.cons hkind (.cons hvalue (.cons hchildren .nil)))

/-- A written tree nests a list and an object for each level of its height, but no list
for the last level. -/
theorem depth_node (layout : Layout) (tree : Node) :
    depth (tree.json layout) = 2 * tree.height - 1 := by
  apply depth_eq
  rw [Node.json, String.toList_ofList]
  exact deepens_encode layout 0 tree

/-- A written rule nests one object more than its tree. -/
theorem depth_rule (layout : Layout) (r : Rule) : depth (r.json layout) = 2 * r.root.height := by
  have hname : Deepens (member layout "name" (quote r.name)) 0 :=
    deepens_member layout _ (deepens_quote _)
  have hroot := deepens_member layout "root" (deepens_encode layout 1 r.root)
  have hpos := r.root.height_pos
  apply depth_eq
  rw [Rule.json, String.toList_ofList, Rule.encode, object]
  have hrule := deepens_enclose layout 0 (.inr rfl) (.inr rfl) (.cons hname (.cons hroot .nil))
  have hdepth : [0, 2 * r.root.height - 1].foldr max 0 + 1 = 2 * r.root.height := by
    simp only [List.foldr_cons, List.foldr_nil]
    omega
  rwa [hdepth] at hrule

end Railroad.Json
