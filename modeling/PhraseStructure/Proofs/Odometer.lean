import Mathlib.Tactic
import PhraseStructure.Proofs.Enumeration

/-!
# The odometer

A cursor can be moved in place, which also says whether it has moved. The valid cursors of an edge
are exactly its cursors, none of them twice. Moved from one of them, a cursor comes to the one after
it, and from the last one it does not move at all. The trees of an edge are listed in the same
order: way by way, and by each way in the order of the choices of trees for its children.
-/

namespace PhraseStructure

namespace Cursor

variable (c : Chart)

mutual

/-- Moves a cursor in place to the next derivation of its edge, and says whether it has moved. -/
def advance : Cursor → Bool × Cursor
  | ⟨e, way, children⟩ =>
    let (moved, children) := advanceAll children
    if moved then (true, ⟨e, way, children⟩)
    else if way + 1 < (c.waysOf e).length then (true, atWay c e (way + 1))
    else (false, ⟨e, way, children⟩)

/-- Moves the right-most cursor that can be moved, and puts those to its right back to their first
derivations. -/
def advanceAll : List Cursor → Bool × List Cursor
  | [] => (false, [])
  | cursor :: rest =>
    let (moved, rest) := advanceAll rest
    if moved then (true, cursor :: rest)
    else
      let (moved, cursor) := advance cursor
      if moved then (true, cursor :: rest.map fun r => first c c.height r.edge)
      else (false, cursor :: rest)

end

mutual

/-- A cursor that stands at a way of its edge, with valid cursors for the children of that way. -/
def Valid : Cursor → Prop
  | ⟨e, way, children⟩ =>
    (∃ w, (c.waysOf e)[way]? = some w ∧ children.map edge = w.children) ∧ ValidAll children

def ValidAll : List Cursor → Prop
  | [] => True
  | cursor :: rest => Valid cursor ∧ ValidAll rest

end

variable {c}

def moved {α : Type} (a : α) : Option α → Bool × α
  | some b => (true, b)
  | none => (false, a)

mutual

/-- Moving a cursor in place changes nothing unless there is a next derivation. -/
theorem advance_eq : (cursor : Cursor) → cursor.advance c = moved cursor (cursor.next? c)
  | ⟨e, way, children⟩ => by
    rw [advance, next?, advanceAll_eq children]
    cases nextAll? c children with
    | some next => rfl
    | none =>
      by_cases hway : way + 1 < (c.waysOf e).length <;> simp [moved, hway]

theorem advanceAll_eq : (cursors : List Cursor) →
    advanceAll c cursors = moved cursors (nextAll? c cursors)
  | [] => rfl
  | cursor :: rest => by
    rw [advanceAll, nextAll?, advanceAll_eq rest]
    cases nextAll? c rest with
    | some next => rfl
    | none =>
      dsimp only [moved]
      rw [advance_eq cursor]
      cases next? c cursor <;> rfl

end

theorem validAll_iff {cursors : List Cursor} :
    ValidAll c cursors ↔ ∀ cursor ∈ cursors, cursor.Valid c := by
  induction cursors with
  | nil => simp [ValidAll]
  | cons cursor rest ih => rw [ValidAll, ih, List.forall_mem_cons]

end Cursor

namespace Chart

variable {c : Chart} {rank : Edge → Nat}

theorem mem_choices_cursors {xs : List Edge} {cursors : List Cursor}
    (h : ∀ x ∈ xs, ∀ cursor, cursor ∈ c.cursors x ↔ cursor.edge = x ∧ cursor.Valid c) :
    cursors ∈ choices (xs.map c.cursors) ↔
      cursors.map Cursor.edge = xs ∧ Cursor.ValidAll c cursors := by
  rw [mem_choices, List.forall₂_map_right_iff]
  constructor
  · intro hall
    induction hall with
    | nil => exact ⟨rfl, trivial⟩
    | cons hmem _ ih =>
      obtain ⟨hx, hxs⟩ := List.forall_mem_cons.mp h
      obtain ⟨hedge, hvalid⟩ := (hx _).mp hmem
      obtain ⟨hedges, hvalids⟩ := ih hxs
      exact ⟨by rw [List.map_cons, hedge, hedges], hvalid, hvalids⟩
  · rintro ⟨rfl, hvalid⟩
    rw [Cursor.validAll_iff] at hvalid
    rw [List.forall₂_map_right_iff, List.forall₂_same]
    intro cursor hcursor
    exact (h _ (List.mem_map_of_mem hcursor) cursor).mpr ⟨rfl, hvalid cursor hcursor⟩

/-- The cursors of an edge are exactly the valid ones. -/
theorem Ranked.mem_cursors (h : c.Ranked rank) {e : Edge} {cursor : Cursor} :
    cursor ∈ c.cursors e ↔ cursor.edge = e ∧ cursor.Valid c := by
  induction e using h.induction generalizing cursor with
  | _ e ih =>
    have hchildren : ∀ way ∈ c.waysOf e, ∀ children : List Cursor,
        children ∈ choices (way.children.map c.cursors) ↔
          children.map Cursor.edge = way.children ∧ Cursor.ValidAll c children :=
      fun way hway children => mem_choices_cursors fun x hx _ => ih way hway x hx
    rw [h.cursors_eq, List.mem_flatMap]
    constructor
    · rintro ⟨⟨way, i⟩, hp, hcursor⟩
      obtain ⟨children, hmem, rfl⟩ := List.mem_map.mp hcursor
      have hway : (c.waysOf e)[i]? = some way := List.mem_zipIdx_iff_getElem?.mp hp
      obtain ⟨hedges, hvalid⟩ := (hchildren way (List.mem_of_getElem? hway) children).mp hmem
      exact ⟨rfl, ⟨way, hway, hedges⟩, hvalid⟩
    · cases cursor with
      | mk e' i children =>
        rintro ⟨rfl, ⟨way, hway, hedges⟩, hvalid⟩
        refine ⟨(way, i), List.mem_zipIdx_iff_getElem?.mpr hway, ?_⟩
        refine List.mem_map.mpr ⟨children, ?_, rfl⟩
        exact (hchildren way (List.mem_of_getElem? hway) children).mpr ⟨hedges, hvalid⟩

/-- Lists of trees for all edges, each in terms of the others: the trees by one way after those by
the way before it, and by each way one tree for each choice of trees for its children. -/
def Lists (c : Chart) (trees : Edge → List ParseTree) : Prop :=
  ∀ e, trees e = (c.waysOf e).flatMap fun
    | .word t => [.leaf (c.grammar.nonTerminalText e.category) (c.grammar.terminalText t)]
    | .split _ children =>
      (choices (children.map trees)).map (.node (c.grammar.nonTerminalText e.category))

theorem Ranked.lists_trees (h : c.Ranked rank) : c.Lists c.trees := by
  intro e
  rw [h.trees_eq]
  apply List.flatMap_congr
  intro way _
  cases way <;> rfl

theorem Ranked.lists_unique (h : c.Ranked rank) {trees : Edge → List ParseTree}
    (htrees : c.Lists trees) : trees = c.trees := by
  funext e
  induction e using h.induction with
  | _ e ih =>
    rw [htrees e, h.lists_trees e]
    apply List.flatMap_congr
    intro way hway
    cases way with
    | word t => rfl
    | split i children =>
      have hchildren : children.map trees = children.map c.trees := List.map_congr_left (ih _ hway)
      dsimp only
      rw [hchildren]

/-- The pulls from a chart find the list of trees of the whole sentence, in its order. This is the
order of the valid cursors, through which a cursor moves one by one up to the last. -/
theorem enumeration_in_order {g : Grammar} (hloaded : g.Loaded) {words : List String} {c : Chart}
    (h : ofTokens g words = .ok c) :
    c.Lists c.trees ∧ (∀ trees, c.Lists trees → trees = c.trees) ∧
      (∀ nt, (c.derivations nt).Yields (c.trees ⟨0, c.length, nt⟩)) ∧
      (∀ e, c.trees e = (c.cursors e).map (Cursor.tree c) ∧
        (c.cursors e = (c.waysOf e).zipIdx.flatMap fun p =>
          (choices (p.1.children.map c.cursors)).map (⟨e, p.2, ·⟩)) ∧
        (c.cursors e).Nodup ∧ ∀ cursor, cursor ∈ c.cursors e ↔ cursor.edge = e ∧ cursor.Valid c) ∧
      ∀ e i cursor, (c.cursors e)[i]? = some cursor →
        cursor.next? c = (c.cursors e)[i + 1]? ∧
          cursor.advance c = match (c.cursors e)[i + 1]? with
            | some next => (true, next)
            | none => (false, cursor) := by
  obtain ⟨tokens, -, rfl⟩ := ofTokens_eq_ok.mp h
  obtain ⟨rank, hranked⟩ := exists_ranked hloaded.wellFormed tokens
  refine ⟨hranked.lists_trees, fun _ => hranked.lists_unique, hranked.yields_derivations, ?_, ?_⟩
  · intro e
    exact ⟨rfl, hranked.cursors_eq e, (hranked.runs_cursors e).nodup, fun _ => hranked.mem_cursors⟩
  · intro e i cursor hcursor
    have hnext := (hranked.runs_cursors e).step_eq hcursor
    refine ⟨hnext, ?_⟩
    rw [Cursor.advance_eq, hnext]
    cases ((ofTerminals g tokens).cursors e)[i + 1]? <;> rfl

/-- Of the two derivations of three words, the first cursor is moved to the second one, and the
second one stays where it is. -/
theorem enumeration_bracketings :
    ∃ first second : Cursor,
      (ofTerminals .bracketings [0, 0, 0]).cursors ⟨0, 3, 0⟩ = [first, second] ∧
      first.advance (ofTerminals .bracketings [0, 0, 0]) = (true, second) ∧
        second.advance (ofTerminals .bracketings [0, 0, 0]) = (false, second) := by
  obtain ⟨-, -, -, -, hadvance⟩ :=
    enumeration_in_order Grammar.loaded_bracketings ofTokens_bracketings
  have hlength : ((ofTerminals .bracketings [0, 0, 0]).cursors ⟨0, 3, 0⟩).length = 2 := by
    decide +kernel
  obtain ⟨first, second, heq⟩ := List.length_eq_two.mp hlength
  have hfirst := (hadvance ⟨0, 3, 0⟩ 0 first (by rw [heq]; rfl)).2
  have hsecond := (hadvance ⟨0, 3, 0⟩ 1 second (by rw [heq]; rfl)).2
  rw [heq] at hfirst hsecond
  exact ⟨first, second, heq, hfirst, hsecond⟩

end Chart

end PhraseStructure
