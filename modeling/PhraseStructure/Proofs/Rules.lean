import Mathlib.Tactic
import PhraseStructure.Chart.Closure
import PhraseStructure.Proofs.WellFormed

/-!
# The rules sorted by shape

Every alternative of a non-terminal is listed, with the index that it has among them. Without
wrapping ids, the rules of one left-hand side are listed by rising index.
-/

namespace PhraseStructure.Grammar

theorem branchingRules_eq (g : Grammar) :
    g.branchingRules = (g.numbered.filter fun x => x.2.2.length ≠ 1).map
      fun x => ⟨x.1, x.2.1, x.2.2⟩ := by
  unfold branchingRules
  induction g.numbered with
  | nil => rfl
  | cons x xs ih =>
    obtain ⟨lhs, index, p⟩ := x
    match p with
    | [] => simp [ih]
    | [s] => simp [ih]
    | s :: s' :: p => simp [ih]

namespace Coherent

variable {g : Grammar} (hg : g.Coherent)
include hg

theorem mem_numbered {lhs : SymbolId} {index : Nat} {p : Production} :
    (lhs, index, p) ∈ g.numbered ↔ (g.alternatives lhs)[index]? = some p := by
  unfold numbered
  simp only [List.mem_flatMap, List.mem_map, Prod.exists, Prod.mk.injEq,
    List.mem_zipIdx_iff_getElem?]
  constructor
  · rintro ⟨nt, name, -, symbols, i, h, rfl, rfl, rfl⟩
    exact h
  · intro h
    have hlt : lhs.toNat < g.nonTerminals.names.size :=
      (lt_size_rules (List.mem_of_getElem? h)).trans_eq hg.size_rules
    refine ⟨lhs, g.nonTerminals.names[lhs.toNat], ?_, p, index, h, rfl, rfl, rfl⟩
    exact SymbolTable.mem_toList.mpr ⟨lhs.toNat, by simp [hlt], UInt32.ofNat_toNat⟩

theorem mem_unaryRules {r : UnaryRule} :
    r ∈ g.unaryRules ↔ (g.alternatives r.lhs)[r.index]? = some [.nonTerminal r.child] := by
  unfold unaryRules
  rw [List.mem_filterMap]
  constructor
  · rintro ⟨⟨lhs, index, p⟩, hmem, h⟩
    split at h
    · next heq =>
      obtain ⟨rfl, rfl, rfl⟩ := heq
      obtain rfl := Option.some.inj h
      exact hg.mem_numbered.mp hmem
    · cases h
  · intro h
    exact ⟨(r.lhs, r.index, [.nonTerminal r.child]), hg.mem_numbered.mpr h, rfl⟩

theorem mem_branchingRules {r : BranchingRule} :
    r ∈ g.branchingRules ↔
      (g.alternatives r.lhs)[r.index]? = some r.symbols ∧ 2 ≤ r.symbols.length := by
  rw [branchingRules_eq, List.mem_map]
  constructor
  · rintro ⟨⟨lhs, index, p⟩, hmem, rfl⟩
    obtain ⟨hmem, hlength⟩ := List.mem_filter.mp hmem
    have halternative := hg.mem_numbered.mp hmem
    have hpos := List.length_pos_of_ne_nil (hg.admits (List.mem_of_getElem? halternative)).ne_nil
    have hlength : p.length ≠ 1 := by simpa using hlength
    exact ⟨halternative, by dsimp only; omega⟩
  · rintro ⟨h, hlength⟩
    have hne : r.symbols.length ≠ 1 := by omega
    exact ⟨(r.lhs, r.index, r.symbols),
      List.mem_filter.mpr ⟨hg.mem_numbered.mpr h, by simpa using hne⟩, rfl⟩

end Coherent

theorem pairwise_numbered {g : Grammar} (hsmall : g.Small) :
    g.numbered.Pairwise fun a b => a.1 = b.1 → a.2.1 < b.2.1 := by
  unfold numbered
  rw [List.pairwise_flatMap]
  constructor
  · rintro ⟨lhs, name⟩ -
    rw [List.pairwise_map]
    have hindices : ((g.alternatives lhs).zipIdx.map Prod.snd).Pairwise (· < ·) := by
      rw [List.zipIdx_map_snd]
      exact List.pairwise_lt_range'
    apply (List.pairwise_map.mp hindices).imp
    rintro ⟨p, i⟩ ⟨q, j⟩ hlt -
    exact hlt
  · have hids := SymbolTable.nodup_toList_fst hsmall.nonTerminals.le
    refine (List.pairwise_map.mp hids).imp fun {a b} hne x hx y hy heq => ?_
    obtain ⟨_, -, rfl⟩ := List.mem_map.mp hx
    obtain ⟨_, -, rfl⟩ := List.mem_map.mp hy
    exact absurd heq hne

theorem pairwise_branchingRules {g : Grammar} (hsmall : g.Small) :
    g.branchingRules.Pairwise fun r r' => r.lhs = r'.lhs → r.index < r'.index := by
  rw [branchingRules_eq, List.pairwise_map]
  exact (pairwise_numbered hsmall).filter _

end PhraseStructure.Grammar
