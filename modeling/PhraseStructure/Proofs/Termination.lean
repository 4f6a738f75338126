import Mathlib.Tactic
import PhraseStructure.Proofs.Count
import PhraseStructure.Proofs.Odometer

/-!
# How deep a chart is searched

Counting, and finding the first derivation of an edge, go from an edge to the children of its ways.
This comes to an end since the children are of lower rank, and it does so within as many nested
calls as the height of the chart. Below, each search is also written so that it gives up, with
nothing, where its calls are nested too deep or a way is not there. With the height of the chart as
the limit none of them gives up, and what they find is what the searches proper find.
-/

namespace PhraseStructure

theorem foldlM_eq_some {α β : Type} {f : β → α → Option β} {g : β → α → β} {as : List α} (b : β)
    (h : ∀ a ∈ as, ∀ b, f b a = some (g b a)) : as.foldlM f b = some (as.foldl g b) := by
  induction as generalizing b with
  | nil => rfl
  | cons a as ih =>
    obtain ⟨ha, has⟩ := List.forall_mem_cons.mp h
    rw [List.foldlM_cons, ha b, List.foldl_cons]
    exact ih (g b a) has

theorem mapM_eq_some {α β : Type} {f : α → Option β} {g : α → β} {as : List α}
    (h : ∀ a ∈ as, f a = some (g a)) : as.mapM f = some (as.map g) := by
  induction as with
  | nil => rfl
  | cons a as ih =>
    obtain ⟨ha, has⟩ := List.forall_mem_cons.mp h
    rw [List.mapM_cons, ha, ih has]
    rfl

namespace Chart

variable (c : Chart)

/-- One edge is a part of another one if it is a child of one of its ways. -/
def Part (x e : Edge) : Prop := ∃ way ∈ c.waysOf e, x ∈ way.children

/-- Counts the derivations of an edge as `countFrom` does, with nested calls up to `calls`. -/
def countWithin : (calls : Nat) → Edge → Memo → Option (Nat × Memo)
  | 0, _, _ => none
  | calls + 1, e, memo =>
    match memo[e]? with
    | some count => some (count, memo)
    | none => do
      let next ← (c.waysOf e).foldlM
        (fun state way => do
          let next ← way.children.foldlM
            (fun state child => do
              let next ← countWithin calls child state.2
              return (cappedMul state.1 next.1, next.2))
            (1, state.2)
          return (cappedAdd state.1 next.1, next.2))
        (0, memo)
      return (next.1, next.2.insert e next.1)

end Chart

namespace Cursor

variable (c : Chart)

def atWayWithin : (calls : Nat) → Edge → (way : Nat) → Option Cursor
  | 0, _, _ => none
  | calls + 1, e, i => do
    let way ← (c.waysOf e)[i]?
    let children ← way.children.mapM fun x => atWayWithin calls x 0
    return ⟨e, i, children⟩

mutual

/-- Moves a cursor in place as `advance` does, with nested calls up to `calls` for each first
derivation that is looked for. -/
def advanceWithin (calls : Nat) : Cursor → Option (Bool × Cursor)
  | ⟨e, way, children⟩ => do
    let next ← advanceAllWithin calls children
    if next.1 then return (true, ⟨e, way, next.2⟩)
    else if way + 1 < (c.waysOf e).length then return (true, ← atWayWithin c calls e (way + 1))
    else return (false, ⟨e, way, next.2⟩)

def advanceAllWithin (calls : Nat) : List Cursor → Option (Bool × List Cursor)
  | [] => some (false, [])
  | cursor :: rest => do
    let nextRest ← advanceAllWithin calls rest
    if nextRest.1 then return (true, cursor :: nextRest.2)
    else
      let next ← advanceWithin calls cursor
      if next.1 then
        return (true, next.2 :: (← nextRest.2.mapM fun r => atWayWithin c calls r.edge 0))
      else return (false, next.2 :: nextRest.2)

end

end Cursor

namespace Chart

variable {c : Chart} {rank : Edge → Nat}

theorem descends_countFrom : c.Descends c.countFrom := by
  intro m n e h
  have hchild : ∀ way ∈ c.waysOf e, ∀ state : Nat × Memo, ∀ x ∈ way.children,
      c.countChild m state x = c.countChild n state x := by
    intro way hway state x hx
    unfold countChild
    rw [h way hway x hx]
  have hway : ∀ state : Nat × Memo, ∀ way ∈ c.waysOf e,
      c.countWay m state way = c.countWay n state way := by
    intro state way hway
    unfold countWay
    rw [List.foldl_ext _ _ _ (hchild way hway)]
  funext memo
  rw [countFrom_succ, countFrom_succ, List.foldl_ext _ _ _ hway]

namespace Ranked

variable (h : c.Ranked rank)
include h

theorem wellFounded_part : WellFounded c.Part := by
  apply Subrelation.wf _ (measure rank).wf
  intro x e hpart
  obtain ⟨way, hway, hx⟩ := hpart
  exact h.child_lt hway hx

/-- Above the height of the chart, a search finds the same at any edge. -/
theorem stable_above {β : Type} {f : Nat → Edge → β} (hf : c.Descends f) {m n : Nat}
    (hm : c.height < m) (hn : c.height < n) (e : Edge) : f m e = f n e := by
  by_cases he : c.waysOf e = []
  · obtain ⟨m, rfl⟩ := Nat.exists_eq_add_one_of_ne_zero (Nat.ne_zero_of_lt hm)
    obtain ⟨n, rfl⟩ := Nat.exists_eq_add_one_of_ne_zero (Nat.ne_zero_of_lt hn)
    apply hf
    intro way hway
    rw [he] at hway
    exact absurd hway List.not_mem_nil
  · have hlt := h.lt_height he
    exact h.stable hf (hlt.trans hm) (hlt.trans hn)

/-- An edge without ways needs one call, and any other one more calls than its rank. -/
theorem countWithin_eq {calls : Nat} {e : Edge} (hcalls : 0 < calls)
    (he : c.waysOf e ≠ [] → rank e < calls) (memo : Memo) :
    c.countWithin calls e memo = some (c.countFrom calls e memo) := by
  induction calls generalizing e memo with
  | zero => exact absurd hcalls (Nat.lt_irrefl 0)
  | succ calls ih =>
    have hchild : ∀ way ∈ c.waysOf e, ∀ x ∈ way.children, ∀ state : Nat × Memo,
        (do let next ← c.countWithin calls x state.2
            return (cappedMul state.1 next.1, next.2)) = some (c.countChild calls state x) := by
      intro way hway x hx state
      have hlt := h.child_lt hway hx
      have he := he (List.ne_nil_of_mem hway)
      rw [ih (by omega) (fun _ => by omega)]
      rfl
    have hway : ∀ way ∈ c.waysOf e, ∀ state : Nat × Memo,
        (do let next ← way.children.foldlM
              (fun state child => do
                let next ← c.countWithin calls child state.2
                return (cappedMul state.1 next.1, next.2))
              (1, state.2)
            return (cappedAdd state.1 next.1, next.2)) = some (c.countWay calls state way) := by
      intro way hway state
      rw [foldlM_eq_some _ (hchild way hway)]
      rfl
    rw [countWithin, countFrom_succ]
    cases memo[e]? with
    | some count => rfl
    | none =>
      dsimp only
      rw [foldlM_eq_some _ hway]
      rfl

theorem atWayWithin_eq {calls : Nat} {e : Edge} {i : Nat} (hi : i < (c.waysOf e).length)
    (he : rank e < calls) : Cursor.atWayWithin c calls e i = some (Cursor.atWay c e i) := by
  induction calls generalizing e i with
  | zero => exact absurd he (Nat.not_lt_zero _)
  | succ calls ih =>
    have hway : (c.waysOf e)[i]? = some (c.waysOf e)[i] := List.getElem?_eq_getElem hi
    have hmem : (c.waysOf e)[i] ∈ c.waysOf e := List.getElem_mem hi
    have hchildren : (c.waysOf e)[i].children.mapM (fun x => Cursor.atWayWithin c calls x 0) =
        some ((c.waysOf e)[i].children.map (Cursor.first c c.height)) := by
      apply mapM_eq_some
      intro x hx
      have hlt := h.child_lt hmem hx
      have hne := h.waysOf_child_ne_nil hmem hx
      rw [ih (List.length_pos_of_ne_nil hne) (by omega), h.first_eq hne]
    unfold Cursor.atWay
    rw [Cursor.atWayWithin, hway]
    dsimp only [Option.bind_eq_bind, Option.bind_some]
    rw [hchildren]
    rfl

theorem firstWithin_eq {calls : Nat} {e : Edge} (hcalls : c.height ≤ calls)
    (he : c.waysOf e ≠ []) :
    Cursor.atWayWithin c calls e 0 = some (Cursor.first c c.height e) := by
  have hlt := h.lt_height he
  rw [h.first_eq he]
  exact h.atWayWithin_eq (List.length_pos_of_ne_nil he) (by omega)

/-- A tree of an edge goes down one rank at least with each level. -/
theorem depth_le {e : Edge} {t : ParseTree} (ht : t ∈ c.trees e) : t.depth ≤ rank e + 1 := by
  induction e using h.induction generalizing t with
  | _ e ih =>
    rw [h.trees_eq] at ht
    obtain ⟨way, hway, ht⟩ := List.mem_flatMap.mp ht
    obtain ⟨ts, hts, rfl⟩ := List.mem_map.mp ht
    cases way with
    | word a =>
      rw [treeBy, ParseTree.depth]
      omega
    | split i cs =>
      have hall : List.Forall₂ (fun t x => t.depth ≤ rank e) ts cs := by
        apply forall₂_of_mem_choices hts
        intro x hx t ht
        have hlt := h.child_lt hway hx
        have hdepth := ih _ hway x hx ht
        omega
      have hbelow : ParseTree.depthAll ts ≤ rank e := by
        rw [ParseTree.depthAll_le_iff]
        intro t ht
        obtain ⟨x, -, hdepth⟩ := hall.flip.exists_of_mem ht
        exact hdepth
      rw [treeBy, ParseTree.depth]
      omega

theorem depth_le_height {e : Edge} {t : ParseTree} (ht : t ∈ c.trees e) : t.depth ≤ c.height := by
  have hne : c.waysOf e ≠ [] := h.trees_ne_nil_iff.mp (List.ne_nil_of_mem ht)
  have hlt := h.lt_height hne
  have hdepth := h.depth_le ht
  omega

end Ranked

end Chart

namespace Cursor

variable {c : Chart} {rank : Edge → Nat}

theorem Valid.waysOf_ne_nil {cursor : Cursor} (h : cursor.Valid c) : c.waysOf cursor.edge ≠ [] := by
  cases cursor with
  | mk e way children =>
    rw [Valid] at h
    obtain ⟨⟨w, hway, -⟩, -⟩ := h
    exact List.ne_nil_of_mem (List.mem_of_getElem? hway)

variable (h : c.Ranked rank) {calls : Nat} (hcalls : c.height ≤ calls)
include h hcalls

theorem mapM_firstWithin_eq {cursors : List Cursor} (hvalid : ValidAll c cursors) :
    (cursors.mapM fun r => atWayWithin c calls r.edge 0) =
      some (cursors.map fun r => first c c.height r.edge) := by
  rw [validAll_iff] at hvalid
  apply mapM_eq_some
  intro cursor hcursor
  exact h.firstWithin_eq hcalls (hvalid cursor hcursor).waysOf_ne_nil

mutual

theorem advanceWithin_eq : (cursor : Cursor) → cursor.Valid c →
    cursor.advanceWithin c calls = some (cursor.advance c)
  | ⟨e, way, children⟩, hvalid => by
    have hlt : rank e < c.height := h.lt_height hvalid.waysOf_ne_nil
    rw [Valid] at hvalid
    rw [advanceWithin, advance, advanceAllWithin_eq children hvalid.2]
    dsimp only [Option.bind_eq_bind, Option.bind_some]
    cases (advanceAll c children).1 with
    | true => rfl
    | false =>
      by_cases hnext : way + 1 < (c.waysOf e).length
      · have hat := h.atWayWithin_eq hnext (show rank e < calls by omega)
        simp [hnext, hat]
      · simp [hnext]

theorem advanceAllWithin_eq : (cursors : List Cursor) → ValidAll c cursors →
    advanceAllWithin c calls cursors = some (advanceAll c cursors)
  | [], _ => rfl
  | cursor :: rest, hvalid => by
    rw [ValidAll] at hvalid
    have hfirst := mapM_firstWithin_eq h hcalls hvalid.2
    rw [advanceAllWithin, advanceAll, advanceAllWithin_eq rest hvalid.2,
      advanceWithin_eq cursor hvalid.1, advanceAll_eq rest]
    dsimp only [Option.bind_eq_bind, Option.bind_some]
    cases nextAll? c rest with
    | some next => rfl
    | none =>
      dsimp only [moved]
      cases (advance c cursor).1 with
      | true => simp [hfirst]
      | false => rfl

end

end Cursor

namespace Chart

/-- The searches of a chart come to an end at every edge, and the height of the chart bounds how
deep their calls are nested. -/
structure Terminates (c : Chart) : Prop where
  wellFounded_part : WellFounded c.Part
  count (e : Edge) (memo : Memo) (calls : Nat) : c.height < calls →
    c.countWithin calls e memo = some (c.countFrom (c.height + 1) e memo)
  count_height (e : Edge) (memo : Memo) : c.waysOf e ≠ [] →
    c.countWithin c.height e memo = some (c.countFrom c.height e memo)
  atWay (e : Edge) (i calls : Nat) : i < (c.waysOf e).length → c.height ≤ calls →
    Cursor.atWayWithin c calls e i = some (Cursor.atWay c e i)
  first (e : Edge) (calls : Nat) : c.waysOf e ≠ [] → c.height ≤ calls →
    Cursor.atWayWithin c calls e 0 = some (Cursor.first c c.height e)
  advance (cursor : Cursor) (calls : Nat) : cursor.Valid c → c.height ≤ calls →
    cursor.advanceWithin c calls = some (cursor.advance c)
  tree (cursor : Cursor) : cursor.Valid c → (cursor.tree c).depth ≤ c.height

theorem Ranked.terminates {c : Chart} {rank : Edge → Nat} (h : c.Ranked rank) : c.Terminates where
  wellFounded_part := h.wellFounded_part
  count e memo calls hcalls := by
    have hlt : c.waysOf e ≠ [] → rank e < calls := fun he => (h.lt_height he).trans hcalls
    rw [h.countWithin_eq (by omega) hlt,
      h.stable_above descends_countFrom hcalls (Nat.lt_succ_self c.height)]
  count_height e memo he := by
    have hlt := h.lt_height he
    exact h.countWithin_eq (by omega) (fun _ => hlt) memo
  atWay e i calls hi hcalls := by
    have hlt := h.lt_height (List.ne_nil_of_length_pos (show 0 < (c.waysOf e).length by omega))
    exact h.atWayWithin_eq hi (by omega)
  first e calls he hcalls := h.firstWithin_eq hcalls he
  advance cursor calls hvalid hcalls := Cursor.advanceWithin_eq h hcalls cursor hvalid
  tree cursor hvalid := by
    have hmem : cursor ∈ c.cursors cursor.edge := h.mem_cursors.mpr ⟨rfl, hvalid⟩
    exact h.depth_le_height (List.mem_map_of_mem hmem)

/-- The edges of a chart are well-founded by their parts, so that all searches of the chart end. The
trees that are pulled have at most the number of tokens times the number of non-terminals as
their depth. -/
theorem terminates_of_ofTokens {g : Grammar} (hloaded : g.Loaded) {words : List String} {c : Chart}
    (h : ofTokens g words = .ok c) :
    c.Terminates ∧ ∀ nt n t, ((c.derivations nt).after n).next.1 = some t →
      t.depth ≤ words.length * g.nonTerminals.size := by
  obtain ⟨tokens, hids, rfl⟩ := ofTokens_eq_ok.mp h
  obtain ⟨rank, hranked⟩ := exists_ranked hloaded.wellFormed tokens
  refine ⟨hranked.terminates, ?_⟩
  intro nt n t ht
  rw [hranked.yields_derivations nt n] at ht
  rw [hids.length_eq]
  exact hranked.depth_le_height (List.mem_of_getElem? ht)

/-- The second bracketing of three words stays within the bound, and its count ends. -/
theorem terminates_bracketings :
    (∃ t, (((ofTerminals .bracketings [0, 0, 0]).derivations 0).after 1).next.1 = some t ∧
      t.depth ≤ 6) ∧
    (ofTerminals .bracketings [0, 0, 0]).countWithin 7 ⟨0, 3, 0⟩ ∅ =
      some ((ofTerminals .bracketings [0, 0, 0]).countFrom 7 ⟨0, 3, 0⟩ ∅) := by
  have hsome : (((ofTerminals .bracketings [0, 0, 0]).derivations 0).after
      1).next.1.isSome = true := by decide +kernel
  have hheight : (ofTerminals .bracketings [0, 0, 0]).height = 6 := by decide +kernel
  have hsize : Grammar.bracketings.nonTerminals.size = 2 := by decide +kernel
  obtain ⟨t, ht⟩ := Option.isSome_iff_exists.mp hsome
  obtain ⟨hterminates, hdepth⟩ :=
    terminates_of_ofTokens Grammar.loaded_bracketings ofTokens_bracketings
  constructor
  · have hle := hdepth 0 1 t ht
    rw [hsize] at hle
    exact ⟨t, ht, hle⟩
  · have hcount := hterminates.count ⟨0, 3, 0⟩ ∅ 7 (by omega)
    rw [hheight] at hcount
    exact hcount

end Chart

end PhraseStructure
