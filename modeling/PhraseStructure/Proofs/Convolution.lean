import Mathlib.Combinatorics.Enumerative.Catalan.Basic
import Mathlib.Tactic
import PhraseStructure.Proofs.Count

/-!
# Counts as convolutions

The ways of an edge are, but for their order, the word of a single token and the partitions of the
stretch for each alternative of its category. A sum over them is therefore made of convolutions of
the values of shorter edges over the cuts. So the derivations of a sentence can be counted from a
grammar and the lengths of stretches alone.
-/

namespace PhraseStructure

variable {derives : Nat → Nat → SymbolId → Bool} {value : Edge → Nat}

theorem sum_map_flatMap {α β : Type} (f : β → Nat) (g : α → List β) (as : List α) :
    ((as.flatMap g).map f).sum = (as.map fun a => ((g a).map f).sum).sum := by
  rw [List.map_flatMap, List.flatMap, List.sum_flatten, List.map_map]
  rfl

/-- The convolution, over the cuts of a stretch, of the values of edges for the symbols of an
alternative. -/
def convolved (value : Edge → Nat) : List Symbol → (pos stop : Nat) → Nat
  | [], pos, stop => if pos = stop then 1 else 0
  | .terminal _ :: _, _, _ => 0
  | .nonTerminal nt :: rest, pos, stop =>
    ((cuts rest.length pos stop).map fun cut =>
      value ⟨pos, cut, nt⟩ * convolved value rest cut stop).sum

theorem sum_partitions (h : ∀ s e nt, derives s e nt = false → value ⟨s, e, nt⟩ = 0)
    (symbols : List Symbol) (pos stop : Nat) :
    ((partitions derives symbols pos stop).map fun es => (es.map value).prod).sum =
      convolved value symbols pos stop := by
  induction symbols generalizing pos with
  | nil =>
    rw [partitions, convolved]
    split_ifs <;> rfl
  | cons symbol rest ih =>
    cases symbol with
    | terminal t => rfl
    | nonTerminal nt =>
      rw [partitions_cons, convolved, sum_map_flatMap]
      refine congrArg List.sum (List.map_congr_left fun cut _ => ?_)
      split_ifs with hcut
      · rw [List.map_map, ← ih]
        exact List.sum_map_mul_left ..
      · rw [h pos cut nt (by simpa using hcut), Nat.zero_mul]
        rfl

@[simp] theorem convolved_terminal (value : Edge → Nat) (t : SymbolId) (rest : List Symbol)
    (pos stop : Nat) : convolved value (.terminal t :: rest) pos stop = 0 := rfl

theorem convolved_single (value : Edge → Nat) (nt : SymbolId) (pos stop : Nat) :
    convolved value [.nonTerminal nt] pos stop =
      if pos < stop then value ⟨pos, stop, nt⟩ else 0 := by
  rw [convolved, List.length_nil, cuts]
  dsimp only
  by_cases hlt : pos < stop
  · rw [if_pos hlt, if_neg (show ¬stop - pos < 0 + 1 by omega), if_pos rfl,
      show stop - 0 + 1 - stop = 1 by omega]
    simp [convolved]
  · rw [if_neg hlt, if_pos (show stop - pos < 0 + 1 by omega)]
    rfl

theorem convolved_pair (value : Edge → Nat) (a b : SymbolId) (pos stop : Nat) :
    convolved value [.nonTerminal a, .nonTerminal b] pos stop =
      ∑ cut ∈ Finset.Ioo pos stop, value ⟨pos, cut, a⟩ * value ⟨cut, stop, b⟩ := by
  have hnodup : (cuts 1 pos stop).Nodup := (pairwise_cuts 1 pos stop).imp ne_of_lt
  have hcuts : (cuts 1 pos stop).toFinset = Finset.Ioo pos stop := by
    ext cut
    rw [List.mem_toFinset, mem_cuts, Finset.mem_Ioo]
    omega
  rw [convolved, List.length_singleton, ← List.sum_toFinset _ hnodup, hcuts]
  apply Finset.sum_congr rfl
  intro cut hcut
  rw [convolved_single, if_pos (Finset.mem_Ioo.mp hcut).2]

/-- The Catalan numbers are, but for the first one, their own convolutions. -/
theorem catalan_succ_eq_sum_range (n : Nat) :
    catalan (n + 1) = ∑ i ∈ Finset.range (n + 1), catalan i * catalan (n - i) := by
  rw [catalan_succ', Finset.Nat.sum_antidiagonal_eq_sum_range_succ fun i j => catalan i * catalan j]

namespace Chart

variable {g : Grammar} {tokens : List SymbolId} {start stop : Nat} {nt : SymbolId}

/-- The word of a stretch, if it is a single token that is an alternative of a non-terminal. -/
def wordWays (g : Grammar) (tokens : List SymbolId) (start stop : Nat) (nt : SymbolId) : List Way :=
  match tokens[start]? with
  | none => []
  | some t => if stop = start + 1 ∧ [.terminal t] ∈ g.alternatives nt then [.word t] else []

theorem mem_wordWays {way : Way} :
    way ∈ wordWays g tokens start stop nt ↔ ∃ t, way = .word t ∧ stop = start + 1 ∧
      tokens[start]? = some t ∧ [.terminal t] ∈ g.alternatives nt := by
  unfold wordWays
  cases tokens[start]? with
  | none => simp
  | some t =>
    dsimp only
    split_ifs with h
    · rw [List.mem_singleton]
      constructor
      · rintro rfl
        exact ⟨t, rfl, h.1, rfl, h.2⟩
      · rintro ⟨t', rfl, -, ht, -⟩
        rw [Option.some.inj ht]
    · simp only [List.not_mem_nil, false_iff]
      rintro ⟨t', -, hone, ht, halternative⟩
      obtain rfl := Option.some.inj ht
      exact h ⟨hone, halternative⟩

theorem nodup_wordWays : (wordWays g tokens start stop nt).Nodup := by
  unfold wordWays
  split
  · exact List.nodup_nil
  · split_ifs
    · exact List.nodup_singleton _
    · exact List.nodup_nil

/-- The ways of a stretch by the alternatives of a non-terminal, alternative by alternative. -/
def splitWays (g : Grammar) (derives : Nat → Nat → SymbolId → Bool) (start stop : Nat)
    (nt : SymbolId) : List Way :=
  (g.alternatives nt).zipIdx.flatMap fun p => (partitions derives p.1 start stop).map (.split p.2)

theorem mem_splitWays {way : Way} :
    way ∈ splitWays g derives start stop nt ↔ ∃ i cs, way = .split i cs ∧
      (g.alternatives nt)[i]? = some (cs.map Edge.symbol) ∧ Tiles start stop cs ∧
        ∀ x ∈ cs, derives x.start x.stop x.category = true := by
  unfold splitWays
  simp only [List.mem_flatMap, List.mem_map, Prod.exists, List.mem_zipIdx_iff_getElem?,
    mem_partitions]
  constructor
  · rintro ⟨p, i, hp, cs, ⟨rfl, htiles, hall⟩, rfl⟩
    exact ⟨i, cs, rfl, hp, htiles, hall⟩
  · rintro ⟨i, cs, rfl, halternative, htiles, hall⟩
    exact ⟨_, i, halternative, cs, ⟨rfl, htiles, hall⟩, rfl⟩

theorem nodup_splitWays : (splitWays g derives start stop nt).Nodup := by
  unfold splitWays
  rw [List.nodup_flatMap]
  constructor
  · intro p _
    exact (nodup_partitions p.1 start stop).map fun _ _ h => (Way.split.inj h).2
  · have hindices : ((g.alternatives nt).zipIdx.map Prod.snd).Pairwise (· < ·) := by
      rw [List.zipIdx_map_snd]
      exact List.pairwise_lt_range'
    refine (List.pairwise_map.mp hindices).imp fun {p q} hlt way hway hway' => ?_
    obtain ⟨cs, -, rfl⟩ := List.mem_map.mp hway
    obtain ⟨cs', -, heq⟩ := List.mem_map.mp hway'
    exact absurd (Way.split.inj heq).1.symm hlt.ne

def hasWays (c : Chart) (start stop : Nat) (nt : SymbolId) : Bool := !(c.ways start stop nt).isEmpty

theorem hasWays_iff {c : Chart} : c.hasWays start stop nt = true ↔ c.ways start stop nt ≠ [] := by
  simp [hasWays]

theorem perm_ways (hg : g.Coherent) (hsmall : g.Small) (hstop : stop ≤ tokens.length) :
    ((ofTerminals g tokens).ways start stop nt).Perm
      (wordWays g tokens start stop nt ++
        splitWays g (ofTerminals g tokens).hasWays start stop nt) := by
  have hnodup : (wordWays g tokens start stop nt ++
      splitWays g (ofTerminals g tokens).hasWays start stop nt).Nodup := by
    rw [List.nodup_append]
    refine ⟨nodup_wordWays, nodup_splitWays, ?_⟩
    rintro way hword way' hsplit rfl
    obtain ⟨t, rfl, -⟩ := mem_wordWays.mp hword
    obtain ⟨i, cs, heq, -⟩ := mem_splitWays.mp hsplit
    cases heq
  refine (List.perm_ext_iff_of_nodup (nodup_ways hg hsmall nt) hnodup).mpr fun way => ?_
  rw [List.mem_append, mem_wordWays, mem_splitWays]
  simp only [hasWays_iff]
  cases way with
  | word t =>
    rw [word_mem_ways hg]
    simp
  | split i cs =>
    rw [split_mem_ways hg]
    have hne : (g.alternatives nt)[i]? = some (cs.map Edge.symbol) → cs ≠ [] := by
      rintro halternative rfl
      exact (hg.admits (List.mem_of_getElem? halternative)).ne_nil rfl
    constructor
    · rintro ⟨halternative, -, htiles, -, hall⟩
      exact Or.inr ⟨i, cs, rfl, halternative, htiles, hall⟩
    · rintro (⟨t, heq, -⟩ | ⟨i', cs', heq, halternative, htiles, hall⟩)
      · cases heq
      · obtain ⟨rfl, rfl⟩ := Way.split.inj heq
        exact ⟨halternative, hne halternative, htiles, hstop, hall⟩

theorem sum_wordWays (value : Edge → Nat) :
    ((wordWays g tokens start stop nt).map fun way => (way.children.map value).prod).sum =
      (wordWays g tokens start stop nt).length := by
  have hone : ∀ way ∈ wordWays g tokens start stop nt, (way.children.map value).prod = 1 := by
    intro way hway
    obtain ⟨t, rfl, -⟩ := mem_wordWays.mp hway
    rfl
  rw [List.map_congr_left hone]
  simp

theorem sum_splitWays (h : ∀ s e k, derives s e k = false → value ⟨s, e, k⟩ = 0) :
    ((splitWays g derives start stop nt).map fun way => (way.children.map value).prod).sum =
      ((g.alternatives nt).map fun p => convolved value p start stop).sum := by
  have hby : ∀ p : Production × Nat, (((partitions derives p.1 start stop).map (Way.split p.2)).map
      fun way => (way.children.map value).prod).sum = convolved value p.1 start stop := by
    intro p
    rw [List.map_map]
    exact sum_partitions h p.1 start stop
  rw [splitWays, sum_map_flatMap, List.map_congr_left fun p _ => hby p]
  calc ((g.alternatives nt).zipIdx.map fun p => convolved value p.1 start stop).sum
      = (((g.alternatives nt).zipIdx.map Prod.fst).map fun p => convolved value p start stop).sum :=
        by rw [List.map_map]; rfl
    _ = ((g.alternatives nt).map fun p => convolved value p start stop).sum := by
        rw [List.zipIdx_map_fst]

section

variable (hg : g.Coherent) (hsmall : g.Small) (hstop : stop ≤ tokens.length)
include hg hsmall hstop

/-- The sum over the ways of an edge of the products over their children. Edges without ways do not
count. -/
theorem sum_ways (hvalue : ∀ x, (ofTerminals g tokens).waysOf x = [] → value x = 0) :
    (((ofTerminals g tokens).ways start stop nt).map fun way => (way.children.map value).prod).sum =
      (wordWays g tokens start stop nt).length +
        ((g.alternatives nt).map fun p => convolved value p start stop).sum := by
  have hnone : ∀ s e k, (ofTerminals g tokens).hasWays s e k = false → value ⟨s, e, k⟩ = 0 := by
    intro s e k h
    have hways : (ofTerminals g tokens).ways s e k = [] := by simpa [hasWays] using h
    exact hvalue ⟨s, e, k⟩ hways
  rw [((perm_ways hg hsmall hstop).map _).sum_eq, List.map_append, List.sum_append, sum_wordWays,
    sum_splitWays hnone]

theorem length_ways : ((ofTerminals g tokens).ways start stop nt).length =
    (wordWays g tokens start stop nt).length + ((g.alternatives nt).map fun p => convolved
      (fun x => if (ofTerminals g tokens).waysOf x = [] then 0 else 1) p start stop).sum := by
  have hone : ∀ way ∈ (ofTerminals g tokens).ways start stop nt, (way.children.map fun x =>
      if (ofTerminals g tokens).waysOf x = [] then 0 else 1).prod = 1 := by
    intro way hway
    cases way with
    | word t => rfl
    | split i cs =>
      obtain ⟨-, -, -, -, hall⟩ := (split_mem_ways hg).mp hway
      change (cs.map _).prod = 1
      rw [List.map_congr_left fun x hx => if_neg (hall x hx), List.prod_map_one]
  rw [← sum_ways hg hsmall hstop (fun x hx => if_pos hx), List.map_congr_left hone]
  simp

end

/-- The count of an edge, from the counts of shorter edges and of those by unary rules. -/
theorem exactCount_eq_convolved (hg : g.WellFormed) (hsmall : g.Small)
    (hstop : stop ≤ tokens.length) :
    (ofTerminals g tokens).exactCount (ofTerminals g tokens).height ⟨start, stop, nt⟩ =
      (wordWays g tokens start stop nt).length + ((g.alternatives nt).map fun p => convolved
        ((ofTerminals g tokens).exactCount (ofTerminals g tokens).height) p start stop).sum := by
  obtain ⟨rank, hranked⟩ := exists_ranked hg tokens
  rw [hranked.exactCount_eq]
  apply sum_ways hg.toCoherent hsmall hstop
  intro x hx
  by_contra hne
  exact hranked.exactCount_ne_zero_iff.mp hne hx

end Chart

end PhraseStructure
