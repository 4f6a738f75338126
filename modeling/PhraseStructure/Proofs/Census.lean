import Mathlib.Tactic
import PhraseStructure.Proofs.Convolution
import PhraseStructure.Proofs.LeastClosure

/-!
# The census of a chart

A chart is counted row by row, and a cell by its entries. No cell has a key twice, and no key is
unknown to the grammar. So the numbers of cells and of ways are sums over the stretches of the
sentence and the non-terminals of the grammar.
-/

namespace PhraseStructure

theorem foldl_add {α : Type} (f : α → Nat) (as : List α) :
    as.foldl (fun n a => n + f a) 0 = (as.map f).sum := by
  rw [List.sum_eq_foldl, List.foldl_map]

namespace Multimap

variable {κ ν : Type}

def keyList (m : Multimap κ ν) : List κ := m.entries.map Prod.fst

variable [DecidableEq κ] {m : Multimap κ ν}

theorem map_fst_appendTo (key : κ) (values : List ν) (entries : List (κ × List ν)) :
    (appendTo key values entries).map Prod.fst =
      if key ∈ entries.map Prod.fst then entries.map Prod.fst
      else entries.map Prod.fst ++ [key] := by
  induction entries with
  | nil => rfl
  | cons entry rest ih =>
    obtain ⟨k, old⟩ := entry
    by_cases hk : k = key
    · simp [appendTo, hk]
    · have hother : key ≠ k := Ne.symm hk
      rw [appendTo, if_neg hk, List.map_cons, ih, List.map_cons]
      by_cases hmem : key ∈ rest.map Prod.fst
      · rw [if_pos hmem, if_pos (List.mem_cons_of_mem _ hmem)]
      · rw [if_neg hmem, if_neg (by simpa [hother] using hmem), List.cons_append]

theorem nodup_keyList_append (h : m.keyList.Nodup) (key : κ) (values : List ν) :
    (m.append key values).keyList.Nodup := by
  rw [show (m.append key values).keyList = _ from map_fst_appendTo key values m.entries]
  split_ifs with hkey
  · exact h
  · refine List.nodup_append.mpr ⟨h, List.nodup_singleton _, ?_⟩
    rintro k hk k' hk' rfl
    exact hkey (List.mem_singleton.mp hk' ▸ hk)

theorem mem_keyList {key : κ} : key ∈ m.keyList ↔ m.hasKey key = true := by
  unfold keyList hasKey get?
  induction m.entries with
  | nil => simp [find]
  | cons entry rest ih =>
    obtain ⟨k, values⟩ := entry
    rw [List.map_cons, List.mem_cons, find]
    split_ifs with hk
    · simp [hk]
    · rw [← ih]
      simp [Ne.symm hk]

theorem get_of_mem (h : m.keyList.Nodup) {key : κ} {values : List ν}
    (hmem : (key, values) ∈ m.entries) : m.get key = values := by
  obtain ⟨entries⟩ := m
  unfold keyList at h
  unfold get get?
  dsimp only at h hmem ⊢
  induction entries with
  | nil => cases hmem
  | cons entry rest ih =>
    obtain ⟨k, old⟩ := entry
    obtain ⟨hnew, hrest⟩ := List.nodup_cons.mp h
    rcases List.mem_cons.mp hmem with heq | hmem
    · obtain ⟨rfl, rfl⟩ := Prod.mk.inj heq
      simp [find]
    · have hk : k ≠ key := by
        rintro rfl
        exact hnew (List.mem_map.mpr ⟨_, hmem, rfl⟩)
      rw [find, if_neg hk]
      exact ih hrest hmem

theorem total_eq (h : m.keyList.Nodup) :
    m.total = (m.keyList.map fun key => (m.get key).length).sum := by
  rw [total, foldl_add, keyList, List.map_map]
  refine congrArg List.sum (List.map_congr_left ?_)
  rintro ⟨key, values⟩ hmem
  rw [Function.comp_apply, get_of_mem h hmem]

variable {keys : List κ} (hm : m.keyList.Nodup) (hkeys : keys.Nodup)
  (hall : ∀ key, m.hasKey key = true → key ∈ keys)
include hm hkeys hall

theorem perm_keyList : m.keyList.Perm (keys.filter m.hasKey) := by
  refine (List.perm_ext_iff_of_nodup hm (hkeys.filter _)).mpr fun key => ?_
  rw [mem_keyList, List.mem_filter]
  exact ⟨fun h => ⟨hall key h, h⟩, And.right⟩

theorem size_eq_countP : m.size = keys.countP m.hasKey := by
  rw [List.countP_eq_length_filter, ← (perm_keyList hm hkeys hall).length_eq, keyList,
    List.length_map, size]

theorem total_eq_sum : m.total = (keys.map fun key => (m.get key).length).sum := by
  rw [total_eq hm, ((perm_keyList hm hkeys hall).map _).sum_eq]
  clear hkeys hall
  induction keys with
  | nil => rfl
  | cons key keys ih =>
    rw [List.filter_cons]
    split_ifs with hkey
    · rw [List.map_cons, List.map_cons, List.sum_cons, List.sum_cons, ih]
    · have hnone : m.get key = [] := by
        by_contra hne
        exact hkey (hasKey_of_get_ne_nil hne)
      rw [List.map_cons, List.sum_cons, ih, hnone, List.length_nil, Nat.zero_add]

end Multimap

namespace Chart

variable {g : Grammar} {tokens : List SymbolId} {start stop : Nat}

theorem nodup_keyList_openCell : (openCell g tokens start stop).keyList.Nodup := by
  have hempty : (∅ : Cell).keyList.Nodup := List.nodup_nil
  unfold openCell
  split_ifs
  · unfold lexicalCell
    split
    · exact hempty
    · exact List.foldlRecOn (motive := fun cell : Cell => cell.keyList.Nodup) _ _ hempty
        fun cell hcell nt _ => Multimap.nodup_keyList_append hcell nt _
  · refine List.foldlRecOn (motive := fun cell : Cell => cell.keyList.Nodup) _ _ hempty
      fun cell hcell r _ => ?_
    unfold applyBranching
    dsimp only
    split
    · exact hcell
    · exact Multimap.nodup_keyList_append hcell _ _

theorem nodup_keyList_cell : ((ofTerminals g tokens).cell start stop).keyList.Nodup := by
  by_cases h : start < stop ∧ stop ≤ tokens.length
  · rw [cell_ofTerminals h.1 h.2]
    exact Cell.close_induction (P := fun cell => cell.keyList.Nodup)
      (fun cell hcell r _ _ => Multimap.nodup_keyList_append hcell _ _) nodup_keyList_openCell
  · rw [cell_eq_empty h]
    exact List.nodup_nil

theorem toList_firstRows (n : Nat) :
    (firstRows g tokens g.unaryRules g.branchingRules n).toList = (List.range n).map fun k =>
      nextRow g tokens g.unaryRules g.branchingRules
        (firstRows g tokens g.unaryRules g.branchingRules k) := by
  induction n with
  | zero => rfl
  | succ n ih => rw [firstRows, Array.toList_push, ih, List.range_succ, List.map_append]; rfl

theorem toList_nextRow {k : Nat} (hk : k < tokens.length) :
    (nextRow g tokens g.unaryRules g.branchingRules
      (firstRows g tokens g.unaryRules g.branchingRules k)).toList =
        (List.range (tokens.length - k)).map fun start =>
          (ofTerminals g tokens).cell start (start + k + 1) := by
  have hsize := size_firstRows g tokens g.unaryRules g.branchingRules k
  unfold nextRow
  rw [Array.toList_map, Array.toList_range, hsize]
  apply List.map_congr_left
  intro start hstart
  rw [List.mem_range] at hstart
  have hempty : (firstRows g tokens g.unaryRules g.branchingRules k).isEmpty =
      decide (start + k + 1 = start + 1) := by
    rw [Array.isEmpty, hsize]
    exact decide_eq_decide.mpr (by omega)
  rw [cell_ofTerminals (by omega) (by omega), openCell, show start + k + 1 - start - 1 = k by omega]
  simp only [hempty, decide_eq_true_eq]

/-- A figure of all cells together is the sum of the figures of the cells, by the lengths of their
stretches and then by their starts. -/
theorem sum_rows (figure : Cell → Nat) :
    (ofTerminals g tokens).rows.foldl (fun n row => n + row.foldl (fun n c => n + figure c) 0) 0 =
      ∑ k ∈ Finset.range tokens.length, ∑ start ∈ Finset.range (tokens.length - k),
        figure ((ofTerminals g tokens).cell start (start + k + 1)) := by
  simp only [← Array.foldl_toList, foldl_add]
  rw [ofTerminals, toList_firstRows, List.map_map, ← List.sum_toFinset _ List.nodup_range,
    List.toFinset_range]
  apply Finset.sum_congr rfl
  intro k hk
  rw [Function.comp_apply, toList_nextRow (Finset.mem_range.mp hk), List.map_map,
    ← List.sum_toFinset _ List.nodup_range, List.toFinset_range]
  rfl

theorem nodup_nonTerminalIds (hg : g.Coherent) (hsmall : g.Small) : g.nonTerminalIds.Nodup := by
  have h := SymbolTable.nodup_toList_fst hsmall.nonTerminals.le
  rwa [SymbolTable.map_fst_toList, ← hg.size_rules] at h

theorem mem_nonTerminalIds_of_hasKey (hg : g.Coherent) (nt : SymbolId)
    (h : ((ofTerminals g tokens).cell start stop).hasKey nt = true) : nt ∈ g.nonTerminalIds :=
  Grammar.mem_nonTerminalIds (lt_size_of_ways_ne_nil hg (full_cell.hasKey_iff.mp h))

theorem cellCount_eq (hg : g.Coherent) (hsmall : g.Small) :
    (ofTerminals g tokens).cellCount =
      ∑ k ∈ Finset.range tokens.length, ∑ start ∈ Finset.range (tokens.length - k),
        g.nonTerminalIds.countP ((ofTerminals g tokens).hasWays start (start + k + 1)) := by
  rw [cellCount, sum_rows]
  apply Finset.sum_congr rfl
  intro k _
  apply Finset.sum_congr rfl
  intro start _
  rw [Multimap.size_eq_countP nodup_keyList_cell (nodup_nonTerminalIds hg hsmall)
    (mem_nonTerminalIds_of_hasKey hg)]
  apply List.countP_congr
  intro nt _
  rw [hasWays_iff, full_cell.hasKey_iff]
  rfl

theorem wayCount_eq (hg : g.Coherent) (hsmall : g.Small) :
    (ofTerminals g tokens).wayCount =
      ∑ k ∈ Finset.range tokens.length, ∑ start ∈ Finset.range (tokens.length - k),
        (g.nonTerminalIds.map fun nt =>
          ((ofTerminals g tokens).ways start (start + k + 1) nt).length).sum := by
  rw [wayCount, sum_rows]
  apply Finset.sum_congr rfl
  intro k _
  apply Finset.sum_congr rfl
  intro start _
  exact Multimap.total_eq_sum nodup_keyList_cell (nodup_nonTerminalIds hg hsmall)
    (mem_nonTerminalIds_of_hasKey hg)

end Chart

end PhraseStructure
