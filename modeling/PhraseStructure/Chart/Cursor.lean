import PhraseStructure.Chart.Basic
import PhraseStructure.ParseTree.Basic

/-!
# Cursors

A cursor stands at one derivation of an edge: it holds the index of a way and a cursor for each
child of that way. The derivations of an edge are ordered by the way and then by those of the
children, the right-most child changing fastest, as on an odometer.
-/

namespace PhraseStructure

structure Cursor where
  edge : Edge
  /-- The index of the way among the ways of the edge. -/
  way : Nat
  children : List Cursor
  deriving Repr

namespace Cursor

variable (c : Chart)

/-- The cursor at the first derivation of an edge. It is searched no deeper than `height`. -/
def first : (height : Nat) → Edge → Cursor
  | 0, e => ⟨e, 0, []⟩
  | height + 1, e => ⟨e, 0, (((c.waysOf e)[0]?.map Way.children).getD []).map (first height)⟩

/-- The cursor at the first derivation of an edge by the way with index `way`. -/
def atWay (e : Edge) (way : Nat) : Cursor :=
  ⟨e, way, (((c.waysOf e)[way]?.map Way.children).getD []).map (first c c.height)⟩

mutual

/-- The cursor at the next derivation of the same edge, if there is one. -/
def next? : Cursor → Option Cursor
  | ⟨e, way, children⟩ =>
    match nextAll? children with
    | some children => some ⟨e, way, children⟩
    | none => if way + 1 < (c.waysOf e).length then some (atWay c e (way + 1)) else none

/-- Moves the right-most cursor that can move, and those to its right back to their first
derivations. -/
def nextAll? : List Cursor → Option (List Cursor)
  | [] => none
  | cursor :: rest =>
    match nextAll? rest with
    | some rest => some (cursor :: rest)
    | none => (next? cursor).map fun moved => moved :: rest.map fun r => first c c.height r.edge

end

mutual

/-- The tree of the derivation at which a cursor stands. -/
def tree : Cursor → ParseTree
  | ⟨e, way, children⟩ =>
    match (c.waysOf e)[way]? with
    | some (.word t) =>
      .leaf (c.grammar.nonTerminalText e.category) (c.grammar.terminalText t)
    | _ => .node (c.grammar.nonTerminalText e.category) (treeAll children)

def treeAll : List Cursor → List ParseTree
  | [] => []
  | cursor :: rest => tree cursor :: treeAll rest

end

theorem treeAll_eq_map (cursors : List Cursor) : treeAll c cursors = cursors.map (tree c) := by
  induction cursors <;> simp_all [treeAll]

end Cursor

end PhraseStructure
