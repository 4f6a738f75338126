import Mathlib.Tactic
import PhraseStructure.Chart.Derivations
import PhraseStructure.Proofs.Choices
import PhraseStructure.Proofs.Height

/-!
# What the derivations go through

The cursors of an edge are listed way by way, with all choices of cursors for the children of each
way. The first cursor of an edge is the first in its list, and a step leads from each cursor to the
next one. The trees pulled from a chart are therefore the trees of these cursors, in this order.
-/

namespace PhraseStructure

namespace Chart

variable (c : Chart)

/-- The cursors of an edge, searched no deeper than `height`. -/
def cursorsWithin : (height : Nat) → Edge → List Cursor
  | 0, _ => []
  | height + 1, e => (c.waysOf e).zipIdx.flatMap fun (way, i) =>
      (choices (way.children.map (cursorsWithin height))).map (⟨e, i, ·⟩)

def cursors (e : Edge) : List Cursor := c.cursorsWithin c.height e

def cursorsBy (e : Edge) (way : Way) (i : Nat) : List Cursor :=
  (choices (way.children.map c.cursors)).map (⟨e, i, ·⟩)

/-- The trees of an edge, in the order of their cursors. -/
def trees (e : Edge) : List ParseTree := (c.cursors e).map (Cursor.tree c)

/-- The tree of an edge by one of its ways over trees for the children of that way. -/
def treeBy (e : Edge) : Way → List ParseTree → ParseTree
  | .word t, _ => .leaf (c.grammar.nonTerminalText e.category) (c.grammar.terminalText t)
  | .split _ _, ts => .node (c.grammar.nonTerminalText e.category) ts

def treesBy (e : Edge) (way : Way) : List ParseTree :=
  (choices (way.children.map c.trees)).map (c.treeBy e way)

variable {c}

theorem descends_cursorsWithin : c.Descends c.cursorsWithin := by
  intro m n e h
  rw [cursorsWithin, cursorsWithin]
  apply List.flatMap_congr
  intro p hp
  obtain ⟨way, i⟩ := p
  have hway : way ∈ c.waysOf e := List.fst_mem_of_mem_zipIdx hp
  dsimp only
  rw [List.map_congr_left (h way hway)]

theorem descends_first : c.Descends (Cursor.first c) := by
  intro m n e h
  rw [Cursor.first, Cursor.first]
  cases hway : (c.waysOf e)[0]? with
  | none => rfl
  | some way =>
    have hchildren := List.map_congr_left (h way (List.mem_of_getElem? hway))
    rw [Option.map_some, Option.getD_some, hchildren]

theorem edge_of_mem_cursors {e : Edge} {cursor : Cursor} (h : cursor ∈ c.cursors e) :
    cursor.edge = e := by
  unfold cursors at h
  cases hheight : c.height with
  | zero =>
    rw [hheight] at h
    exact absurd h List.not_mem_nil
  | succ height =>
    rw [hheight, cursorsWithin] at h
    obtain ⟨p, -, h⟩ := List.mem_flatMap.mp h
    obtain ⟨children, -, rfl⟩ := List.mem_map.mp h
    rfl

theorem nextAll?_cons (cursor : Cursor) (rest : List Cursor) :
    Cursor.nextAll? c (cursor :: rest) =
      ((Cursor.nextAll? c rest).map (cursor :: ·)).or
        ((Cursor.next? c cursor).map
          (· :: rest.map fun r => Cursor.first c c.height r.edge)) := by
  rw [Cursor.nextAll?]
  cases Cursor.nextAll? c rest <;> rfl

theorem next?_mk (e : Edge) (i : Nat) (children : List Cursor) :
    Cursor.next? c ⟨e, i, children⟩ =
      ((Cursor.nextAll? c children).map (⟨e, i, ·⟩)).or
        (if i + 1 < (c.waysOf e).length then some (Cursor.atWay c e (i + 1)) else none) := by
  rw [Cursor.next?]
  cases Cursor.nextAll? c children <;> rfl

theorem head?_cursorsBy {e : Edge} {way : Way} {i : Nat} (hway : (c.waysOf e)[i]? = some way)
    (hfirst : ∀ x ∈ way.children, (c.cursors x).head? = some (Cursor.first c c.height x)) :
    (c.cursorsBy e way i).head? = some (Cursor.atWay c e i) := by
  unfold cursorsBy Cursor.atWay
  rw [List.head?_map, head?_choices hfirst, hway]
  rfl

theorem runs_choices {xs : List Edge}
    (hfirst : ∀ x ∈ xs, (c.cursors x).head? = some (Cursor.first c c.height x))
    (hruns : ∀ x ∈ xs, Runs (Cursor.next? c) none (c.cursors x)) :
    Runs (Cursor.nextAll? c) none (choices (xs.map c.cursors)) := by
  induction xs with
  | nil => exact .cons rfl .nil
  | cons x xs ih =>
    obtain ⟨-, hfirst⟩ := List.forall_mem_cons.mp hfirst
    obtain ⟨hruns, hrunsAll⟩ := List.forall_mem_cons.mp hruns
    have hrest := ih hfirst hrunsAll
    have hhead := head?_choices hfirst
    have hreset : ∀ rest ∈ choices (xs.map c.cursors),
        (rest.map fun r => Cursor.first c c.height r.edge) = xs.map (Cursor.first c c.height) := by
      intro rest hmem
      have hedges : rest.map Cursor.edge = xs := by
        have hall := List.forall₂_map_right_iff.mp (mem_choices.mp hmem)
        rw [← List.forall₂_eq_eq_eq, List.forall₂_map_left_iff]
        exact hall.imp fun _ _ h => edge_of_mem_cursors h
      rw [← hedges, List.map_map]
      rfl
    rw [List.map_cons, choices]
    generalize c.cursors x = as at hruns
    induction hruns with
    | nil => exact .nil
    | @cons a as hstep _ ih =>
      have hafter : (as.flatMap fun a => (choices (xs.map c.cursors)).map (a :: ·)).head?.or none =
          (Cursor.next? c a).map (· :: xs.map (Cursor.first c c.height)) := by
        rw [Option.or_none, hstep, Option.or_none]
        cases as with
        | nil => rfl
        | cons b as => rw [List.flatMap_cons, List.head?_append, List.head?_map, hhead]; rfl
      rw [List.flatMap_cons]
      refine Runs.append ?_ ih
      rw [hafter]
      apply hrest.map
      intro rest hmem
      rw [nextAll?_cons, hreset rest hmem]

theorem runs_cursorsBy {e : Edge}
    (hfirst : ∀ way ∈ c.waysOf e, ∀ x ∈ way.children,
      (c.cursors x).head? = some (Cursor.first c c.height x))
    (hruns : ∀ way ∈ c.waysOf e, ∀ x ∈ way.children, Runs (Cursor.next? c) none (c.cursors x))
    {ws : List Way} {i : Nat} (hws : (c.waysOf e).drop i = ws) :
    ((ws.zipIdx i).flatMap fun p => c.cursorsBy e p.1 p.2).head? =
        (if i < (c.waysOf e).length then some (Cursor.atWay c e i) else none) ∧
      Runs (Cursor.next? c) none ((ws.zipIdx i).flatMap fun p => c.cursorsBy e p.1 p.2) := by
  induction ws generalizing i with
  | nil =>
    have hlast := List.drop_eq_nil_iff.mp hws
    exact ⟨(if_neg (by omega)).symm, .nil⟩
  | cons way ws ih =>
    have hway : (c.waysOf e)[i]? = some way := by rw [← List.head?_drop, hws]; rfl
    have hrest : (c.waysOf e).drop (i + 1) = ws := by rw [← List.tail_drop, hws]; rfl
    have hlt := (List.getElem?_eq_some_iff.mp hway).1
    have hmem := List.mem_of_getElem? hway
    obtain ⟨hheadRest, hrunsRest⟩ := ih hrest
    have hhead := head?_cursorsBy hway (hfirst way hmem)
    rw [List.zipIdx_cons, List.flatMap_cons]
    constructor
    · rw [List.head?_append, hhead, if_pos hlt]
      rfl
    · refine Runs.append ?_ hrunsRest
      rw [hheadRest, Option.or_none]
      apply (runs_choices (hfirst way hmem) (hruns way hmem)).map
      intro children _
      exact next?_mk e i children

theorem tree_mk {e : Edge} {way : Way} {i : Nat} (hway : (c.waysOf e)[i]? = some way)
    (children : List Cursor) :
    Cursor.tree c ⟨e, i, children⟩ = c.treeBy e way (children.map (Cursor.tree c)) := by
  rw [Cursor.tree, hway]
  cases way with
  | word t => rfl
  | split j cs => exact congrArg _ (Cursor.treeAll_eq_map c children)

namespace Ranked

variable {rank : Edge → Nat} (h : c.Ranked rank)
include h

theorem cursors_eq (e : Edge) :
    c.cursors e = (c.waysOf e).zipIdx.flatMap fun p => c.cursorsBy e p.1 p.2 := by
  by_cases he : c.waysOf e = []
  · unfold cursors
    cases c.height with
    | zero => rw [he]; rfl
    | succ height => rw [cursorsWithin, he]; rfl
  · unfold cursors
    rw [h.height_succ descends_cursorsWithin he]
    rfl

theorem first_eq {e : Edge} (he : c.waysOf e ≠ []) :
    Cursor.first c c.height e = Cursor.atWay c e 0 := by
  rw [h.height_succ descends_first he]
  rfl

theorem head?_cursors {e : Edge} (he : c.waysOf e ≠ []) :
    (c.cursors e).head? = some (Cursor.first c c.height e) := by
  induction e using h.induction with
  | _ e ih =>
    obtain ⟨way, ways, hways⟩ := List.exists_cons_of_ne_nil he
    have hway : (c.waysOf e)[0]? = some way := by rw [hways]; rfl
    have hmem := List.mem_of_getElem? hway
    have hhead := head?_cursorsBy hway fun x hx =>
      ih way hmem x hx (h.waysOf_child_ne_nil hmem hx)
    rw [h.cursors_eq, hways, List.zipIdx_cons, List.flatMap_cons, List.head?_append, hhead,
      h.first_eq he]
    rfl

/-- The steps from the first cursor of an edge go through all its cursors. -/
theorem runs_cursors (e : Edge) : Runs (Cursor.next? c) none (c.cursors e) := by
  induction e using h.induction with
  | _ e ih =>
    rw [h.cursors_eq]
    refine (runs_cursorsBy ?_ ih List.drop_zero).2
    intro way hway x hx
    exact h.head?_cursors (h.waysOf_child_ne_nil hway hx)

theorem trees_ne_nil_iff {e : Edge} : c.trees e ≠ [] ↔ c.waysOf e ≠ [] := by
  unfold trees
  rw [Ne, List.map_eq_nil_iff]
  constructor
  · intro htrees hways
    apply htrees
    rw [h.cursors_eq, hways]
    rfl
  · intro hways hcursors
    have hhead := h.head?_cursors hways
    rw [hcursors] at hhead
    cases hhead

theorem trees_eq (e : Edge) : c.trees e = (c.waysOf e).flatMap (c.treesBy e) := by
  have hby : ∀ p ∈ (c.waysOf e).zipIdx,
      (c.cursorsBy e p.1 p.2).map (Cursor.tree c) = c.treesBy e p.1 := by
    rintro ⟨way, i⟩ hp
    have hway : (c.waysOf e)[i]? = some way := List.mem_zipIdx_iff_getElem?.mp hp
    calc (c.cursorsBy e way i).map (Cursor.tree c)
        = (choices (way.children.map c.cursors)).map
            (c.treeBy e way ∘ List.map (Cursor.tree c)) := by
          unfold cursorsBy
          rw [List.map_map]
          exact List.map_congr_left fun children _ => tree_mk hway children
      _ = c.treesBy e way := by
          rw [← List.map_map, map_choices, List.map_map]
          rfl
  calc c.trees e
      = (c.waysOf e).zipIdx.flatMap fun p => (c.cursorsBy e p.1 p.2).map (Cursor.tree c) := by
        rw [trees, h.cursors_eq, List.map_flatMap]
    _ = (c.waysOf e).zipIdx.flatMap fun p => c.treesBy e p.1 := List.flatMap_congr hby
    _ = ((c.waysOf e).zipIdx.map Prod.fst).flatMap (c.treesBy e) := by rw [List.flatMap_map]
    _ = (c.waysOf e).flatMap (c.treesBy e) := by rw [List.zipIdx_map_fst]

end Ranked

end Chart

namespace Derivations

/-- What is left of derivations after `n` pulls. -/
def after (d : Derivations) : (n : Nat) → Derivations
  | 0 => d
  | n + 1 => d.next.2.after n

/-- The pulls find the trees of a list in turn, and nothing from then on. -/
def Yields (d : Derivations) (ts : List ParseTree) : Prop := ∀ n, (d.after n).next.1 = ts[n]?

variable {d d' : Derivations} {t : ParseTree} {ts : List ParseTree}

theorem Yields.of_isEmpty (h : d.isEmpty = true) : d.Yields [] := by
  intro n
  have hnext := next_of_isEmpty h
  induction n with
  | zero => rw [after, hnext]; rfl
  | succ n ih =>
    rw [after, hnext]
    exact ih

theorem Yields.nil (h : d.next = (none, d')) (hempty : d'.isEmpty = true) : d.Yields [] := by
  intro n
  cases n with
  | zero => rw [after, h]; rfl
  | succ n =>
    rw [after, h]
    exact Yields.of_isEmpty hempty n

theorem Yields.cons (h : d.next = (some t, d')) (hrest : d'.Yields ts) : d.Yields (t :: ts) := by
  intro n
  cases n with
  | zero => rw [after, h]; rfl
  | succ n =>
    rw [after, h]
    exact hrest n

theorem Yields.take (h : d.Yields ts) (n : Nat) : (d.take n).1 = ts.take n := by
  induction n generalizing d ts with
  | zero => rfl
  | succ n ih =>
    rw [Derivations.take]
    cases hd : d.next with
    | mk t? d' =>
      have hfirst : t? = ts[0]? := by rw [← h 0, after, hd]
      have hrest : d'.Yields ts.tail := by
        intro m
        rw [List.getElem?_tail, ← h (m + 1), after, hd]
      subst hfirst
      cases ts with
      | nil => rfl
      | cons t ts => exact congrArg (t :: ·) (ih hrest)

theorem yields_of_runs {c : Chart} {cursor : Cursor} {as : List Cursor}
    (h : Runs (Cursor.next? c) none (cursor :: as)) :
    Yields ⟨c, some cursor, true⟩ (as.map (Cursor.tree c)) := by
  induction as generalizing cursor with
  | nil =>
    cases h with
    | cons hstep _ =>
      have hnext : next ⟨c, some cursor, true⟩ = (none, ⟨c, none, true⟩) := by simp [next, hstep]
      exact .nil hnext rfl
  | cons b as ih =>
    cases h with
    | cons hstep hrest => exact .cons (by simp [next, hstep]) (ih hrest)

end Derivations

/-- The derivations of a chart yield the trees of the edge of the whole sentence. -/
theorem Chart.Ranked.yields_derivations {c : Chart} {rank : Edge → Nat} (h : c.Ranked rank)
    (nt : SymbolId) : (c.derivations nt).Yields (c.trees ⟨0, c.length, nt⟩) := by
  by_cases he : c.waysOf ⟨0, c.length, nt⟩ = []
  · have hroot : c.root? nt = none := by simp [root?, he]
    have htrees : c.trees ⟨0, c.length, nt⟩ = [] := by
      by_contra hne
      exact h.trees_ne_nil_iff.mp hne he
    rw [htrees]
    exact .of_isEmpty (by simp [derivations, Derivations.isEmpty, hroot])
  · have hroot : c.root? nt = some ⟨0, c.length, nt⟩ := by simp [root?, he]
    obtain ⟨as, has⟩ := List.head?_eq_some_iff.mp (h.head?_cursors he)
    have hruns := h.runs_cursors ⟨0, c.length, nt⟩
    rw [has] at hruns
    rw [trees, has, List.map_cons]
    exact .cons (by simp [derivations, Derivations.next, hroot]) (Derivations.yields_of_runs hruns)

end PhraseStructure
