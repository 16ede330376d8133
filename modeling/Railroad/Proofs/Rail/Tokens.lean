import Railroad.Proofs.NormalForm
import Railroad.Proofs.Token.Writing
import Railroad.Rail

/-!
# The tokens of rail text

Every node of a tree stands for some tokens around those of its children.  Cutting
the rail text of a tree in normal form yields exactly these tokens.

Main definitions:

- Definition {lit}`Node.railSymbols`: the tokens that a tree stands for.
- Definition {lit}`Rule.railSymbols`: the tokens that a rule stands for.

Main results:

- Theorem {lit}`Node.Normal.writes_rail`: the rail text of a tree writes its tokens.
- Theorem {lit}`Rule.Normal.symbols_rail`: so does the rail text of a rule.
-/

namespace Railroad

/-! ## Tokens of a tree -/

/-- The token of a bar. -/
abbrev Token.barSymbol : Token.Kind × String :=
  (.bar, "|")

namespace Node

mutual

/-- The tokens that a tree stands for in rail text. -/
def railSymbols : Node → List (Token.Kind × String)
  | ⟨kind, value, children⟩ =>
    match kind with
    | .sequence => (railSymbolsAll children).flatten
    | .choice => [Token.barSymbol].intercalate (railSymbolsAll children)
    | .choiceRight => (railSymbolsAll children).flatten ++ [Token.barSymbol]
    | .choiceLeft => Token.barSymbol :: (railSymbolsAll children).flatten
    | .loop => (railSymbolsAll children).flatten ++ [(.plus, "+")]
    | .remark => [(.remark, "[" ++ value ++ "]")]
    | .terminal => [(.terminal, value)]
    | .nonTerminal => [(.identifier, value)]
    | .group => (.openParen, "(") :: ((railSymbolsAll children).flatten ++ [(.closeParen, ")")])
    | .choiceSingle => []

/-- The tokens of each of some trees. -/
def railSymbolsAll : List Node → List (List (Token.Kind × String))
  | [] => []
  | node :: nodes => node.railSymbols :: railSymbolsAll nodes

end

theorem railSymbolsAll_eq_map (nodes : List Node) :
    railSymbolsAll nodes = nodes.map railSymbols := by
  induction nodes with
  | nil => rfl
  | cons node nodes ih => simp [railSymbolsAll, ih]

end Node

/-- The tokens of a rule, without a semicolon. -/
def Rule.railSymbols (rule : Rule) : List (Token.Kind × String) :=
  (.identifier, rule.name) :: (.colon, ":") :: rule.root.railSymbols

/-! ## Rail text writes the tokens -/

namespace Token

/-- Renderings with a separator between neighbours write their tokens with those of
the separator between them. -/
theorem writes_join {separator : String} {between : List (Kind × String)} {nodes : List Node}
    (hseparator : Writes separator.toList between)
    (hnodes : ∀ node ∈ nodes, Writes node.rail.text.toList node.railSymbols) :
    Writes (Rendering.join separator (Node.railAll nodes)).text.toList
      (between.intercalate (Node.railSymbolsAll nodes)) := by
  rw [Node.railAll_eq_map, Node.railSymbolsAll_eq_map]
  induction nodes with
  | nil => exact writes_nil
  | cons node nodes ih =>
    rw [List.forall_mem_cons] at hnodes
    cases nodes with
    | nil =>
      rw [List.map_singleton, List.map_singleton, List.intercalate_singleton]
      exact hnodes.1
    | cons next nodes =>
      have hall := (hnodes.1.append hseparator).append (ih hnodes.2)
      rw [List.map_cons, List.map_cons, List.map_cons, List.map_cons,
        List.intercalate_cons_cons, Rendering.join, Rendering.text_append,
        Rendering.text_append, String.toList_append, String.toList_append]
      exact hall

theorem intercalate_nil_left {α : Type} (ls : List (List α)) :
    ([] : List α).intercalate ls = ls.flatten := by
  induction ls with
  | nil => rfl
  | cons l ls ih =>
    cases ls with
    | nil => simp
    | cons l' ls => rw [List.intercalate_cons_cons, ih, List.append_nil, List.flatten_cons (l := l)]

/-- Texts that renderers put between others write marks and nothing else. -/
theorem writes_empty : Writes "".toList [] :=
  writes_nil

theorem writes_blank : Writes " ".toList [] :=
  writes_space rfl

theorem writes_bar : Writes "| ".toList [barSymbol] :=
  (writes_mark rfl).append writes_blank

theorem writes_spaced_bar : Writes " | ".toList [barSymbol] :=
  writes_blank.append writes_bar

theorem writes_plus : Writes "+ ".toList [(.plus, "+")] :=
  (writes_mark rfl).append writes_blank

theorem writes_openParen : Writes "(".toList [(.openParen, "(")] :=
  writes_mark rfl

theorem writes_closeParen : Writes ")".toList [(.closeParen, ")")] :=
  writes_mark rfl

/-- A rendering between two texts writes their tokens around its own. -/
theorem writes_between {left right : String} {r : Rendering} {ls ss rs : List (Kind × String)}
    (hleft : Writes left.toList ls) (h : Writes r.text.toList ss)
    (hright : Writes right.toList rs) :
    Writes (Rendering.between left r right).text.toList (ls ++ ss ++ rs) := by
  rw [Rendering.between, String.toList_append, String.toList_append]
  exact (hleft.append h).append hright

/-- Renderings with blanks between neighbours write their tokens. -/
theorem writes_join_blank {nodes : List Node}
    (hnodes : ∀ node ∈ nodes, Writes node.rail.text.toList node.railSymbols) :
    Writes (Rendering.join " " (Node.railAll nodes)).text.toList
      (Node.railSymbolsAll nodes).flatten := by
  rw [← intercalate_nil_left]
  exact writes_join writes_blank hnodes

end Token

open Token

/-- The rail text of a tree in normal form writes the tokens of the tree. -/
theorem Node.Normal.writes_rail {layer : Node.Layer} {node : Node} (h : Node.Normal layer node) :
    Writes node.rail.text.toList node.railSymbols := by
  induction h with
  | @name value hname =>
    rw [Node.rail, Node.railSymbols, Rendering.ofText, String.toList_append]
    have hwrites := writes_name hname rfl writes_blank
    rwa [String.ofList_toList] at hwrites
  | @terminal value hterminal =>
    rw [Node.rail, Node.railSymbols, Rendering.ofText, String.toList_append]
    have hwrites := (writes_terminal hterminal).append writes_blank
    rwa [String.ofList_toList] at hwrites
  | @remark value hbracket htrim =>
    have hbracketed : IsBracketed ("[" ++ value ++ "]").toList :=
      ⟨value.toList, by simp, hbracket⟩
    have hwrites := (writes_remark hbracketed).append writes_blank
    rw [String.ofList_toList, ← String.toList_append, String.append_assoc] at hwrites
    exact hwrites
  | emptyGroup => exact writes_between writes_openParen writes_empty writes_closeParen
  | group hinner ih =>
    have hnodes := writes_join_blank (List.forall_mem_singleton.mpr ih)
    exact writes_between writes_openParen hnodes writes_closeParen
  | loop hinner ih =>
    have hnodes := writes_join_blank (List.forall_mem_singleton.mpr ih)
    have hwrites := writes_between writes_empty hnodes writes_plus
    exact hwrites
  | single hnode ih => exact ih
  | sequence hlength hnodes ih => exact writes_join_blank ih
  | only hnode ih => exact ih
  | choice hlength hnodes ih => exact writes_join writes_spaced_bar ih
  | notRight hnode ih => exact ih
  | right hnode ih =>
    have hnodes := writes_join_blank (List.forall_mem_singleton.mpr ih)
    have hwrites := writes_between writes_empty hnodes writes_bar
    exact hwrites
  | notLeft hnode ih => exact ih
  | left hnode ih =>
    have hnodes := writes_join_blank (List.forall_mem_singleton.mpr ih)
    have hwrites := writes_between writes_bar hnodes writes_empty
    rwa [List.append_nil] at hwrites

/-- The rail text of a rule in normal form yields the tokens of the rule. -/
theorem Rule.Normal.symbols_rail {rule : Rule} (h : rule.Normal) :
    symbols rule.rail.text.toList = rule.railSymbols := by
  have hroot : Writes rule.root.rail.text.toList rule.root.railSymbols := by
    rcases h.root with hempty | hbody
    · rw [hempty]
      exact writes_nil
    · exact hbody.writes_rail
  have hline : Writes ['\n', '\t'] [] := (writes_space rfl).append (writes_space rfl)
  have hcolon : Writes [':', '\n', '\t'] [(.colon, ":")] := (writes_mark rfl).append hline
  have hbehind : Writes (' ' :: ([':', '\n', '\t'] ++ rule.root.rail.text.toList))
      ((.colon, ":") :: rule.root.railSymbols) :=
    (writes_space rfl).append (hcolon.append hroot)
  have htext : rule.rail.text.toList =
      rule.name.toList ++ ' ' :: ([':', '\n', '\t'] ++ rule.root.rail.text.toList) := by
    simp [Rule.rail, Rendering.between]
  have hwrites := writes_name h.name rfl hbehind
  rw [htext, hwrites.symbols_eq, String.ofList_toList, Rule.railSymbols]

end Railroad
