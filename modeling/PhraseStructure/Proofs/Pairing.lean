import Mathlib.Combinatorics.Enumerative.Catalan.Basic
import Mathlib.Tactic
import PhraseStructure.Proofs.Census

/-!
# Pairings of equal words

With the rules `X -> X X | "a"`, each stretch of a row of equal words is a phrase, and it is made of
two shorter phrases in as many ways as there are cuts. The derivations of a stretch are counted by
the Catalan numbers.
-/

namespace PhraseStructure

open Chart

namespace Grammar

def pairingRules : String := "X -> X X | \"a\""

def pairings : Grammar := (ofRuleText pairingRules).toOption.get (by decide +kernel)

theorem ofRuleText_pairings : ofRuleText pairingRules = .ok pairings := Except.eq_ok_get _

theorem wellFormed_pairings : pairings.WellFormed :=
  (Loaded.ofRuleText ofRuleText_pairings).wellFormed

theorem small_pairings : pairings.Small where
  nonTerminals := by decide +kernel
  terminals := by decide +kernel

theorem alternatives_pairings :
    pairings.alternatives 0 = [[.nonTerminal 0, .nonTerminal 0], [.terminal 0]] := by
  decide +kernel

theorem nonTerminalIds_pairings : pairings.nonTerminalIds = [0] := by decide +kernel

theorem spells_pairings (n : Nat) :
    pairings.Spells (List.replicate n "a") (List.replicate n 0) := by
  have hword : pairings.terminals.id? "a" = some 0 := by decide +kernel
  induction n with
  | zero => exact .nil
  | succ n ih => exact .cons hword ih

end Grammar

theorem catalan_ne_zero (n : Nat) : catalan n ≠ 0 := by
  intro h
  have hbinom := succ_mul_catalan_eq_centralBinom n
  rw [h, Nat.mul_zero] at hbinom
  exact Nat.centralBinom_ne_zero n hbinom.symm

theorem sum_Ioo_eq_sum_range (f : Nat → Nat) (start k : Nat) :
    ∑ cut ∈ Finset.Ioo start (start + k + 1), f cut =
      ∑ i ∈ Finset.range k, f (start + i + 1) := by
  rw [← Finset.Ico_add_one_left_eq_Ioo, Finset.sum_Ico_eq_sum_range,
    show start + k + 1 - (start + 1) = k by omega]
  apply Finset.sum_congr rfl
  intro i _
  rw [Nat.add_right_comm]

theorem sum_range_sub (n : Nat) : ∑ k ∈ Finset.range n, (n - k) = n * (n + 1) / 2 := by
  induction n with
  | zero => rfl
  | succ n ih =>
    rw [Finset.sum_range_succ', Finset.sum_congr rfl fun k _ => Nat.add_sub_add_right n 1 k, ih]
    have hnext : (n + 1) * (n + 1 + 1) = n * (n + 1) + (n + 1) * 2 := by ring
    rw [hnext, Nat.add_mul_div_right _ _ Nat.two_pos, Nat.sub_zero]

/-- There are `n - k` stretches with `k` cuts. -/
theorem six_mul_sum_range (n : Nat) :
    6 * ∑ k ∈ Finset.range n, (n - k) * k + n = n ^ 3 := by
  induction n with
  | zero => rfl
  | succ n ih =>
    have hstep : ∀ k ∈ Finset.range (n + 1), (n + 1 - k) * k = (n - k) * k + k := by
      intro k hk
      have hle : k ≤ n := Nat.lt_succ_iff.mp (Finset.mem_range.mp hk)
      rw [Nat.succ_sub hle, Nat.succ_mul]
    have hgauss := Finset.sum_range_id_mul_two (n + 1)
    rw [Finset.sum_congr rfl hstep, Finset.sum_add_distrib, Finset.sum_range_succ, Nat.sub_self]
    rw [Nat.add_sub_cancel] at hgauss
    linear_combination ih + 3 * hgauss

theorem sum_range_sub_mul (n : Nat) :
    ∑ k ∈ Finset.range n, (n - k) * k = (n - 1) * n * (n + 1) / 6 := by
  cases n with
  | zero => rfl
  | succ n =>
    have hsix := six_mul_sum_range (n + 1)
    have hproduct : (n + 1 - 1) * (n + 1) * (n + 1 + 1) + (n + 1) = (n + 1) ^ 3 := by
      rw [Nat.add_sub_cancel]
      ring
    omega

open Grammar (pairings)

namespace Chart

/-- The chart of a row of `n` equal words. -/
def pairing (n : Nat) : Chart := ofTerminals pairings (List.replicate n 0)

variable {n start k : Nat}

theorem length_wordWays_pairing (h : start < n) :
    (wordWays pairings (List.replicate n 0) start (start + k + 1) 0).length =
      if k = 0 then 1 else 0 := by
  have hword : [.terminal 0] ∈ pairings.alternatives 0 := by simp [Grammar.alternatives_pairings]
  have hlength : start + k + 1 = start + 1 ↔ k = 0 := by omega
  unfold wordWays
  rw [List.getElem?_replicate_of_lt h]
  simp only [hword, hlength, and_true]
  split_ifs <;> rfl

theorem sum_convolved_pairing (value : Edge → Nat) :
    ((pairings.alternatives 0).map fun p => convolved value p start (start + k + 1)).sum =
      ∑ i ∈ Finset.range k, value ⟨start, start + i + 1, 0⟩ *
        value ⟨start + i + 1, start + k + 1, 0⟩ := by
  rw [Grammar.alternatives_pairings]
  simp only [List.map_cons, List.map_nil, List.sum_cons, List.sum_nil, convolved_terminal,
    Nat.add_zero, convolved_pair, sum_Ioo_eq_sum_range]

theorem exactCount_pairing (h : start + k < n) :
    (pairing n).exactCount (pairing n).height ⟨start, start + k + 1, 0⟩ = catalan k := by
  induction k using Nat.strong_induction_on generalizing start with
  | _ k ih =>
    have hstop : start + k + 1 ≤ (List.replicate n (0 : SymbolId)).length := by
      rw [List.length_replicate]
      exact h
    unfold pairing
    rw [exactCount_eq_convolved Grammar.wellFormed_pairings Grammar.small_pairings hstop,
      length_wordWays_pairing (by omega), sum_convolved_pairing]
    cases k with
    | zero => rw [Finset.sum_range_zero, catalan_zero, if_pos rfl, Nat.add_zero]
    | succ k =>
      rw [if_neg (Nat.succ_ne_zero k), Nat.zero_add, catalan_succ_eq_sum_range]
      apply Finset.sum_congr rfl
      intro i hi
      rw [Finset.mem_range] at hi
      have hleft : (pairing n).exactCount (pairing n).height ⟨start, start + i + 1, 0⟩ =
          catalan i := ih i hi (by omega)
      have hright : (pairing n).exactCount (pairing n).height
          ⟨start + i + 1, start + i + 1 + (k - i) + 1, 0⟩ = catalan (k - i) :=
        ih (k - i) (by omega) (by omega)
      rw [show start + i + 1 + (k - i) + 1 = start + (k + 1) + 1 by omega] at hright
      exact congrArg₂ (· * ·) hleft hright

theorem waysOf_pairing_ne_nil (start : Nat) {k : Nat} (h : start + k < n) :
    (pairing n).waysOf ⟨start, start + k + 1, 0⟩ ≠ [] := by
  obtain ⟨rank, hranked⟩ := exists_ranked Grammar.wellFormed_pairings (List.replicate n 0)
  refine hranked.exactCount_ne_zero_iff.mp fun hnone => ?_
  exact catalan_ne_zero k ((exactCount_pairing h).symm.trans hnone)

theorem length_ways_pairing (h : start + k < n) :
    ((pairing n).ways start (start + k + 1) 0).length = (if k = 0 then 1 else 0) + k := by
  have hstop : start + k + 1 ≤ (List.replicate n (0 : SymbolId)).length := by
    rw [List.length_replicate]
    exact h
  unfold pairing
  rw [length_ways Grammar.wellFormed_pairings.toCoherent Grammar.small_pairings hstop,
    length_wordWays_pairing (by omega), sum_convolved_pairing]
  have hone : ∀ i ∈ Finset.range k,
      (if (pairing n).waysOf ⟨start, start + i + 1, 0⟩ = [] then 0 else 1) *
        (if (pairing n).waysOf ⟨start + i + 1, start + k + 1, 0⟩ = [] then 0 else 1) = 1 := by
    intro i hi
    rw [Finset.mem_range] at hi
    have hleft := waysOf_pairing_ne_nil start (show start + i < n by omega)
    have hright := waysOf_pairing_ne_nil (start + i + 1)
      (show start + i + 1 + (k - i - 1) < n by omega)
    rw [show start + i + 1 + (k - i - 1) + 1 = start + k + 1 by omega] at hright
    rw [if_neg hleft, if_neg hright]
  have hsum := Finset.sum_congr rfl hone
  rw [Finset.sum_const, Finset.card_range, smul_eq_mul, Nat.mul_one] at hsum
  exact congrArg _ hsum

theorem cellCount_pairing (n : Nat) : (pairing n).cellCount = n * (n + 1) / 2 := by
  unfold pairing
  rw [cellCount_eq Grammar.wellFormed_pairings.toCoherent Grammar.small_pairings,
    List.length_replicate, ← sum_range_sub]
  apply Finset.sum_congr rfl
  intro k hk
  have hone : ∀ start ∈ Finset.range (n - k), pairings.nonTerminalIds.countP
      ((pairing n).hasWays start (start + k + 1)) = 1 := by
    intro start hstart
    rw [Finset.mem_range] at hk hstart
    rw [Grammar.nonTerminalIds_pairings, List.countP_singleton, if_pos]
    exact hasWays_iff.mpr (waysOf_pairing_ne_nil start (by omega))
  calc ∑ start ∈ Finset.range (n - k), pairings.nonTerminalIds.countP
        ((pairing n).hasWays start (start + k + 1))
      = ∑ _start ∈ Finset.range (n - k), 1 := Finset.sum_congr rfl hone
    _ = n - k := by rw [Finset.sum_const, Finset.card_range, smul_eq_mul, Nat.mul_one]

theorem wayCount_pairing (n : Nat) :
    (pairing n).wayCount = n + (n - 1) * n * (n + 1) / 6 := by
  unfold pairing
  rw [wayCount_eq Grammar.wellFormed_pairings.toCoherent Grammar.small_pairings,
    List.length_replicate, ← sum_range_sub_mul]
  have hrow : ∀ k ∈ Finset.range n,
      ∑ start ∈ Finset.range (n - k), (pairings.nonTerminalIds.map fun nt =>
        ((pairing n).ways start (start + k + 1) nt).length).sum =
          (if k = 0 then n else 0) + (n - k) * k := by
    intro k hk
    have hways : ∀ start ∈ Finset.range (n - k), (pairings.nonTerminalIds.map fun nt =>
        ((pairing n).ways start (start + k + 1) nt).length).sum = (if k = 0 then 1 else 0) + k := by
      intro start hstart
      rw [Finset.mem_range] at hk hstart
      rw [Grammar.nonTerminalIds_pairings]
      exact length_ways_pairing (by omega)
    rw [Finset.sum_congr rfl hways, Finset.sum_const, Finset.card_range, smul_eq_mul, Nat.mul_add]
    split_ifs with hzero
    · rw [hzero, Nat.sub_zero, Nat.mul_one]
    · rfl
  calc ∑ k ∈ Finset.range n, ∑ start ∈ Finset.range (n - k), (pairings.nonTerminalIds.map fun nt =>
        ((pairing n).ways start (start + k + 1) nt).length).sum
      = ∑ k ∈ Finset.range n, ((if k = 0 then n else 0) + (n - k) * k) :=
        Finset.sum_congr rfl hrow
    _ = n + ∑ k ∈ Finset.range n, (n - k) * k := by
        rw [Finset.sum_add_distrib, Finset.sum_ite_eq']
        cases n <;> simp

end Chart

/-- The figures of the chart of `n` equal words: as many derivations as the Catalan number before
`n` says, up to the limit, a cell for each stretch, and a way for each word and for each cut of a
stretch. -/
theorem figures_of_pairings {n : Nat} (hn : 0 < n) :
    ∃ g x c, Grammar.ofRuleText "X -> X X | \"a\"" = .ok g ∧ g.nonTerminals.id? "X" = some x ∧
      Chart.ofTokens g (List.replicate n "a") = .ok c ∧
        c.derivationCount x = min (catalan (n - 1)) countLimit ∧
          c.cellCount = n * (n + 1) / 2 ∧ c.wayCount = n + (n - 1) * n * (n + 1) / 6 := by
  obtain ⟨rank, hranked⟩ := exists_ranked Grammar.wellFormed_pairings (List.replicate n 0)
  have hlength : (pairing n).length = 0 + (n - 1) + 1 := by
    change (List.replicate n (0 : SymbolId)).length = _
    rw [List.length_replicate]
    omega
  refine ⟨pairings, 0, pairing n, Grammar.ofRuleText_pairings, by decide +kernel,
    ofTokens_eq_ok.mpr ⟨_, Grammar.spells_pairings n, rfl⟩, ?_, cellCount_pairing n,
    wayCount_pairing n⟩
  rw [← exactCount_pairing (show 0 + (n - 1) < n by omega), ← hlength]
  exact hranked.derivationCount_eq 0

/-- Four words. -/
theorem figures_of_four_pairings : 0 < 4 ∧
    ∃ g x c, Grammar.ofRuleText "X -> X X | \"a\"" = .ok g ∧ g.nonTerminals.id? "X" = some x ∧
      Chart.ofTokens g (List.replicate 4 "a") = .ok c ∧
        c.derivationCount x = 5 ∧ c.cellCount = 10 ∧ c.wayCount = 14 := by
  have hpositive : 0 < 4 := by decide
  obtain ⟨g, x, c, hg, hx, hc, hcount, hcells, hways⟩ := figures_of_pairings hpositive
  have hlimit : min 5 countLimit = 5 := by decide
  rw [show 4 - 1 = 3 from rfl, catalan_three, hlimit] at hcount
  exact ⟨hpositive, g, x, c, hg, hx, hc, hcount, hcells, hways⟩

end PhraseStructure
