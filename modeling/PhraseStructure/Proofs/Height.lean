import Mathlib.Tactic
import PhraseStructure.Proofs.Chart

/-!
# The height of a chart

The edges of a chart have ranks that fall from an edge to the children of its ways: a child is
shorter, or it is the same stretch with a category of lower rank in the grammar. All ranks are below
the height of the chart, so that a search bounded by the height is never cut short.
-/

namespace PhraseStructure.Chart

variable {c : Chart} {rank : Edge → Nat}

structure Ranked (c : Chart) (rank : Edge → Nat) : Prop where
  waysOf_child_ne_nil {e x : Edge} {way : Way} :
    way ∈ c.waysOf e → x ∈ way.children → c.waysOf x ≠ []
  child_lt {e x : Edge} {way : Way} : way ∈ c.waysOf e → x ∈ way.children → rank x < rank e
  lt_height {e : Edge} : c.waysOf e ≠ [] → rank e < c.height

/-- A search of some height whose result at an edge depends on the results for the children. -/
def Descends {β : Type} (c : Chart) (f : (height : Nat) → Edge → β) : Prop :=
  ∀ m n e, (∀ way ∈ c.waysOf e, ∀ x ∈ way.children, f m x = f n x) → f (m + 1) e = f (n + 1) e

namespace Ranked

theorem induction (h : c.Ranked rank) {motive : Edge → Prop}
    (step : ∀ e, (∀ way ∈ c.waysOf e, ∀ x ∈ way.children, motive x) → motive e) (e : Edge) :
    motive e := by
  induction hn : rank e using Nat.strong_induction_on generalizing e with
  | _ n ih =>
    apply step
    intro way hway x hx
    have hlt := h.child_lt hway hx
    exact ih (rank x) (by omega) x rfl

/-- A search that is higher than an edge finds the same at any such height. -/
theorem stable (h : c.Ranked rank) {β : Type} {f : Nat → Edge → β} (hf : c.Descends f) {m n : Nat}
    {e : Edge} (hm : rank e < m) (hn : rank e < n) : f m e = f n e := by
  induction m generalizing n e with
  | zero => exact absurd hm (Nat.not_lt_zero _)
  | succ m ih =>
    cases n with
    | zero => exact absurd hn (Nat.not_lt_zero _)
    | succ n =>
      apply hf
      intro way hway x hx
      have hlt := h.child_lt hway hx
      exact ih (by omega) (by omega)

theorem height_succ (h : c.Ranked rank) {β : Type} {f : Nat → Edge → β} (hf : c.Descends f)
    {e : Edge} (he : c.waysOf e ≠ []) : f c.height e = f (c.height + 1) e := by
  have hlt := h.lt_height he
  exact h.stable hf hlt (Nat.lt_succ_of_lt hlt)

end Ranked

/-- The rank of an edge, first by its length, then by the rank of its category. -/
def edgeRank (size : Nat) (rank : SymbolId → Nat) (e : Edge) : Nat :=
  (e.length - 1) * size + rank e.category

theorem edgeRank_lt {size : Nat} {rank : SymbolId → Nat} {e : Edge} (hlength : 0 < e.length)
    (hrank : rank e.category < size) : edgeRank size rank e < e.length * size := by
  calc (e.length - 1) * size + rank e.category
      < (e.length - 1) * size + size := Nat.add_lt_add_left hrank _
    _ = e.length * size := by
        rw [← Nat.succ_mul, Nat.succ_eq_add_one, Nat.sub_add_cancel hlength]

theorem exists_ranked {g : Grammar} (hg : g.WellFormed) (tokens : List SymbolId) :
    ∃ rank, (ofTerminals g tokens).Ranked rank := by
  obtain ⟨rank, hrank, htarget⟩ := hg.exists_rank
  have hcategory : ∀ {e : Edge}, (ofTerminals g tokens).waysOf e ≠ [] →
      0 < e.length ∧ e.length ≤ tokens.length ∧ rank e.category < g.nonTerminals.size := by
    intro e he
    obtain ⟨hstart, hstop⟩ := bounds_of_ways_ne_nil he
    have hlt := hrank _ (lt_size_of_ways_ne_nil hg.toCoherent he)
    rw [hg.size_rules] at hlt
    unfold Edge.length
    exact ⟨by omega, by omega, hlt⟩
  refine ⟨edgeRank g.nonTerminals.size rank, ?_, ?_, ?_⟩
  · intro e x way hway hx
    cases way with
    | word t => exact absurd hx List.not_mem_nil
    | split i cs =>
      obtain ⟨-, -, -, -, hall⟩ := (split_mem_ways hg.toCoherent).mp hway
      exact hall x hx
  · intro e x way hway hx
    cases way with
    | word t => exact absurd hx List.not_mem_nil
    | split i cs =>
      obtain ⟨halternative, hne, htiles, -, hall⟩ := (split_mem_ways hg.toCoherent).mp hway
      obtain ⟨hpos, -, hlt⟩ := hcategory (hall x hx)
      match cs with
      | [] => exact absurd rfl hne
      | [y] =>
        obtain rfl := List.mem_singleton.mp hx
        obtain ⟨hstart, hstop, -⟩ := Tiles.singleton_iff.mp htiles
        have hfall := htarget e.category x.category
          (g.mem_unaryTargets.mpr (List.mem_of_getElem? halternative))
        unfold edgeRank Edge.length
        rw [hstart, hstop]
        exact Nat.add_lt_add_left hfall _
      | y :: z :: rest =>
        have hshorter : x.length < e.length := htiles.shorter (by simp) hx
        calc edgeRank g.nonTerminals.size rank x
            < x.length * g.nonTerminals.size := edgeRank_lt hpos hlt
          _ ≤ (e.length - 1) * g.nonTerminals.size := Nat.mul_le_mul_right _ (by omega)
          _ ≤ edgeRank g.nonTerminals.size rank e := Nat.le_add_right _ _
  · intro e he
    obtain ⟨hpos, hle, hlt⟩ := hcategory he
    calc edgeRank g.nonTerminals.size rank e
        < e.length * g.nonTerminals.size := edgeRank_lt hpos hlt
      _ ≤ tokens.length * g.nonTerminals.size := Nat.mul_le_mul_right _ hle

end PhraseStructure.Chart
