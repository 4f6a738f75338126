import Mathlib.Tactic
import PhraseStructure.Chart.Basic
import PhraseStructure.Grammar.Display
import PhraseStructure.Proofs.Closure
import PhraseStructure.Proofs.Partition
import PhraseStructure.Proofs.Rules

/-!
# What a chart holds

A cell is the closure of its open cell, which has the lexical ways of a single token or the
branching ways of several. The edges of a branching way are shorter than the stretch, so that the
rows at hand when it is sought have them already. The ways of a stretch are therefore exactly the
words and the tilings by derivable edges that the grammar allows, each once.
-/

namespace PhraseStructure

theorem Grammar.Coherent.knowsWord_iff {g : Grammar} (hg : g.Coherent) {word : String} :
    g.knowsWord word = true ↔ ∃ t, g.terminals.id? word = some t := by
  unfold Grammar.knowsWord Grammar.categories
  cases h : g.terminals.id? word with
  | none => simp
  | some t => simpa using hg.lexicon_ne_nil (hg.terminals.toNat_lt h)

/-- The terminals are the ids of the words, in their order. -/
abbrev Grammar.Spells (g : Grammar) (words : List String) (tokens : List SymbolId) : Prop :=
  List.Forall₂ (fun word t => g.terminals.id? word = some t) words tokens

theorem Grammar.terminalsOf_eq_ok {g : Grammar} {position : Nat} {words : List String}
    {tokens : List SymbolId} :
    g.terminalsOf position words = .ok tokens ↔ g.Spells words tokens := by
  induction words generalizing position tokens with
  | nil => simp [terminalsOf, eq_comm]
  | cons word words ih =>
    rw [terminalsOf, Spells, List.forall₂_cons_left_iff]
    cases h : g.terminals.id? word with
    | none => simp
    | some t =>
      rw [Except.bind_eq_ok]
      constructor
      · rintro ⟨rest, hrest, heq⟩
        exact ⟨t, rest, rfl, ih.mp hrest, (Except.ok.inj heq).symm⟩
      · rintro ⟨t', rest, ht, hrest, rfl⟩
        obtain rfl := Option.some.inj ht
        exact ⟨rest, ih.mpr hrest, rfl⟩

theorem Grammar.spells_iff {g : Grammar} {words : List String} {tokens : List SymbolId} :
    g.Spells words tokens ↔ words.map g.terminals.id? = tokens.map some := by
  rw [Spells, ← List.forall₂_eq_eq_eq, List.forall₂_map_left_iff, List.forall₂_map_right_iff]

theorem Grammar.exists_spells {g : Grammar} {words : List String}
    (h : ∀ word ∈ words, ∃ t, g.terminals.id? word = some t) :
    ∃ tokens, g.Spells words tokens := by
  induction words with
  | nil => exact ⟨[], .nil⟩
  | cons word words ih =>
    obtain ⟨⟨t, ht⟩, hrest⟩ := List.forall_mem_cons.mp h
    obtain ⟨tokens, htokens⟩ := ih hrest
    exact ⟨t :: tokens, .cons ht htokens⟩

theorem Grammar.Spells.getElem?_eq_some {g : Grammar} {words : List String} {tokens : List SymbolId}
    (h : g.Spells words tokens) {i : Nat} {t : SymbolId} :
    tokens[i]? = some t ↔ ∃ word, words[i]? = some word ∧ g.terminals.id? word = some t := by
  calc tokens[i]? = some t
      ↔ (tokens.map some)[i]? = some (some t) := by simp
    _ ↔ (words.map g.terminals.id?)[i]? = some (some t) := by
        rw [Grammar.spells_iff.mp h]
    _ ↔ ∃ word, words[i]? = some word ∧ g.terminals.id? word = some t := by
        rw [List.getElem?_map, Option.map_eq_some_iff]

/-- A way by an alternative stands before one by a later alternative, or by the same alternative
with later cuts, that is the ends of its edges. -/
inductive Way.Before : Way → Way → Prop
  | index {i j : Nat} {cs ds : List Edge} : i < j → Before (.split i cs) (.split j ds)
  | cuts {i : Nat} {cs ds : List Edge} :
      cs.map Edge.stop < ds.map Edge.stop → Before (.split i cs) (.split i ds)

theorem Way.Before.ne {way way' : Way} (h : way.Before way') : way ≠ way' := by
  rintro rfl
  cases h with
  | index hlt => exact lt_irrefl _ hlt
  | cuts hlt => exact lt_irrefl _ hlt

namespace Chart

theorem ofTokens_eq_ok {g : Grammar} {words : List String} {c : Chart} :
    ofTokens g words = .ok c ↔ ∃ tokens, g.Spells words tokens ∧ c = ofTerminals g tokens := by
  unfold ofTokens
  simp only [Except.map_eq_ok, Grammar.terminalsOf_eq_ok]
  exact exists_congr fun _ => and_congr_right fun _ => eq_comm

/-- The cell of the tokens from `start` to `stop` before its unary closure. -/
def openCell (g : Grammar) (tokens : List SymbolId) (start stop : Nat) : Cell :=
  if stop = start + 1 then lexicalCell g tokens start
  else branchingCell g.branchingRules
    (firstRows g tokens g.unaryRules g.branchingRules (stop - start - 1)) start stop

variable {g : Grammar} {tokens : List SymbolId} {start stop : Nat}

theorem cell_firstRows {n : Nat} (hlt : start < stop) (hle : stop ≤ tokens.length)
    (hn : stop - start ≤ n) :
    (firstRows g tokens g.unaryRules g.branchingRules n).cell start stop =
      (openCell g tokens start stop).close g.unaryRules start stop := by
  have hsize := size_firstRows g tokens g.unaryRules g.branchingRules (stop - start - 1)
  have hempty : (firstRows g tokens g.unaryRules g.branchingRules (stop - start - 1)).isEmpty =
      decide (stop = start + 1) := by
    rw [Array.isEmpty, hsize]
    exact decide_eq_decide.mpr (by omega)
  have hstop : start + (stop - start - 1) + 1 = stop := by omega
  have hget : (Array.range (tokens.length - (stop - start - 1)))[start]? = some start := by
    rw [Array.getElem?_range, if_pos (by omega)]
  unfold Rows.cell
  rw [if_pos hlt, getElem?_firstRows _ _ _ _ (show stop - start - 1 < n by omega)]
  simp only [Option.bind_some, nextRow, Array.getElem?_map, hsize, hget, Option.map_some,
    Option.getD_some, hempty, decide_eq_true_eq, hstop]
  rfl

theorem cell_ofTerminals (hlt : start < stop) (hle : stop ≤ tokens.length) :
    (ofTerminals g tokens).cell start stop =
      (openCell g tokens start stop).close g.unaryRules start stop :=
  cell_firstRows hlt hle (by omega)

theorem cell_eq_empty (h : ¬(start < stop ∧ stop ≤ tokens.length)) :
    (ofTerminals g tokens).cell start stop = ∅ := by
  unfold cell ofTerminals Rows.cell
  split_ifs with hlt
  · by_cases hrow : stop - start - 1 < tokens.length
    · have hnone : (nextRow g tokens g.unaryRules g.branchingRules
          (firstRows g tokens g.unaryRules g.branchingRules (stop - start - 1)))[start]? =
            none := by
        rw [Array.getElem?_eq_none_iff, size_nextRow, size_firstRows]
        omega
      rw [getElem?_firstRows _ _ _ _ hrow, Option.bind_some, hnone]
      rfl
    · have hnone : (firstRows g tokens g.unaryRules g.branchingRules
          tokens.length)[stop - start - 1]? = none := by
        rw [Array.getElem?_eq_none_iff, size_firstRows]
        omega
      rw [hnone]
      rfl
  · rfl

theorem get_lexicalCell {t : SymbolId} (ht : tokens[start]? = some t) (nt : SymbolId) :
    (lexicalCell g tokens start).get nt =
      List.replicate ((g.lexicon.get t).count nt) (.word t) := by
  have hstep : ∀ (cell : Cell) (k nt : SymbolId),
      (cell.append k [.word t]).get nt = cell.get nt ++ if k = nt then [.word t] else [] := by
    intro cell k nt
    rw [Multimap.get_append]
    split_ifs with hk
    · rw [hk]
    · rw [List.append_nil]
  unfold lexicalCell
  rw [ht]
  dsimp only
  rw [Multimap.get_foldl hstep, Multimap.get_empty, List.nil_append]
  induction g.lexicon.get t with
  | nil => rfl
  | cons k ks ih =>
    rw [List.flatMap_cons, ih, List.count_cons]
    by_cases hk : k = nt <;> simp [hk, List.replicate_succ]

theorem get_applyBranching (shorter : Rows) (cell : Cell) (r : BranchingRule) (nt : SymbolId) :
    (applyBranching shorter start stop cell r).get nt = cell.get nt ++
      if r.lhs = nt then
        (partitions (fun s e k => (shorter.cell s e).hasKey k) r.symbols start stop).map
          (.split r.index)
      else [] := by
  unfold applyBranching
  dsimp only
  split
  · next h => simp [h]
  · rw [Multimap.get_append]
    split_ifs with hlhs
    · rw [hlhs]
    · rw [List.append_nil]

theorem get_branchingCell (rules : List BranchingRule) (shorter : Rows) (nt : SymbolId) :
    (branchingCell rules shorter start stop).get nt = rules.flatMap fun r =>
      if r.lhs = nt then
        (partitions (fun s e k => (shorter.cell s e).hasKey k) r.symbols start stop).map
          (.split r.index)
      else [] := by
  unfold branchingCell
  rw [Multimap.get_foldl (get_applyBranching shorter), Multimap.get_empty, List.nil_append]

/-- The branching ways of a non-terminal come by the index of the alternative, then by the cuts. -/
theorem pairwise_get_branchingCell (hsmall : g.Small) (shorter : Rows) (nt : SymbolId) :
    ((branchingCell g.branchingRules shorter start stop).get nt).Pairwise Way.Before := by
  rw [get_branchingCell, List.pairwise_flatMap]
  constructor
  · intro r _
    split_ifs
    · rw [List.pairwise_map]
      exact (pairwise_partitions r.symbols start stop).imp .cuts
    · exact .nil
  · refine (Grammar.pairwise_branchingRules hsmall).imp fun {r r'} hlt way hway way' hway' => ?_
    split_ifs at hway hway' with hlhs hlhs'
    · obtain ⟨cs, -, rfl⟩ := List.mem_map.mp hway
      obtain ⟨cs', -, rfl⟩ := List.mem_map.mp hway'
      exact .index (hlt (hlhs.trans hlhs'.symm))
    all_goals simp at hway hway'

theorem full_openCell : (openCell g tokens start stop).Full := by
  unfold openCell
  split_ifs
  · unfold lexicalCell
    split
    · exact Multimap.full_empty
    · exact Multimap.Full.foldl (fun m k hm => hm.append k (List.cons_ne_nil _ _)) _
        Multimap.full_empty
  · refine Multimap.Full.foldl (fun m r hm => ?_) _ Multimap.full_empty
    unfold applyBranching
    dsimp only
    split
    · exact hm
    · next hne => exact hm.append _ (by simpa using hne)

theorem full_cell : ((ofTerminals g tokens).cell start stop).Full := by
  by_cases h : start < stop ∧ stop ≤ tokens.length
  · rw [cell_ofTerminals h.1 h.2]
    exact (Cell.extends_close _ _ _ full_openCell).1.full
  · rw [cell_eq_empty h]
    exact Multimap.full_empty

theorem bounds_of_ways_ne_nil {nt : SymbolId}
    (h : (ofTerminals g tokens).ways start stop nt ≠ []) : start < stop ∧ stop ≤ tokens.length := by
  by_contra hbounds
  apply h
  unfold ways
  rw [cell_eq_empty hbounds]
  exact Multimap.get_empty nt

variable (hg : g.Coherent)
include hg

theorem mem_get_lexicalCell {nt : SymbolId} {way : Way} :
    way ∈ (lexicalCell g tokens start).get nt ↔
      ∃ t, way = .word t ∧ tokens[start]? = some t ∧ [.terminal t] ∈ g.alternatives nt := by
  cases ht : tokens[start]? with
  | none =>
    unfold lexicalCell
    rw [ht]
    simp
  | some t =>
    rw [get_lexicalCell ht, List.mem_replicate, ← Nat.pos_iff_ne_zero, List.count_pos_iff,
      hg.mem_lexicon]
    constructor
    · intro h
      obtain ⟨halternative, rfl⟩ := h
      exact ⟨t, rfl, rfl, halternative⟩
    · intro h
      obtain ⟨t', rfl, ht', halternative⟩ := h
      obtain rfl := Option.some.inj ht'
      exact ⟨halternative, rfl⟩

theorem mem_get_branchingCell {shorter : Rows} {nt : SymbolId} {way : Way} :
    way ∈ (branchingCell g.branchingRules shorter start stop).get nt ↔
      ∃ i cs, way = .split i cs ∧ 2 ≤ cs.length ∧
        (g.alternatives nt)[i]? = some (cs.map Edge.symbol) ∧ Tiles start stop cs ∧
          ∀ x ∈ cs, (shorter.cell x.start x.stop).hasKey x.category = true := by
  rw [get_branchingCell, List.mem_flatMap]
  constructor
  · intro h
    obtain ⟨r, hr, hway⟩ := h
    split_ifs at hway with hlhs
    · obtain ⟨cs, hcs, rfl⟩ := List.mem_map.mp hway
      obtain ⟨halternative, hlength⟩ := hg.mem_branchingRules.mp hr
      obtain ⟨hsymbols, htiles, hall⟩ := mem_partitions.mp hcs
      rw [hsymbols] at halternative hlength
      exact ⟨r.index, cs, rfl, by simpa using hlength, hlhs ▸ halternative, htiles, hall⟩
    · exact absurd hway List.not_mem_nil
  · rintro ⟨i, cs, rfl, hlength, halternative, htiles, hall⟩
    refine ⟨⟨nt, i, cs.map Edge.symbol⟩, ?_, ?_⟩
    · exact hg.mem_branchingRules.mpr ⟨halternative, by simpa using hlength⟩
    · rw [if_pos rfl]
      exact List.mem_map_of_mem (mem_partitions.mpr ⟨rfl, htiles, hall⟩)

theorem mem_get_openCell (hlt : start < stop) (hle : stop ≤ tokens.length) {nt : SymbolId}
    {way : Way} :
    way ∈ (openCell g tokens start stop).get nt ↔
      (∃ t, way = .word t ∧ stop = start + 1 ∧ tokens[start]? = some t ∧
        [.terminal t] ∈ g.alternatives nt) ∨
      ∃ i cs, way = .split i cs ∧ 2 ≤ cs.length ∧
        (g.alternatives nt)[i]? = some (cs.map Edge.symbol) ∧ Tiles start stop cs ∧
          ∀ x ∈ cs, ((ofTerminals g tokens).cell x.start x.stop).hasKey x.category = true := by
  unfold openCell
  split_ifs with hone
  · rw [mem_get_lexicalCell hg]
    constructor
    · rintro ⟨t, hway, ht, halternative⟩
      exact Or.inl ⟨t, hway, hone, ht, halternative⟩
    · rintro (⟨t, hway, -, ht, halternative⟩ | ⟨i, cs, -, hlength, -, htiles, -⟩)
      · exact ⟨t, hway, ht, halternative⟩
      · have := htiles.add_length_le
        omega
  · rw [mem_get_branchingCell hg]
    have hkeys : ∀ {cs : List Edge}, 2 ≤ cs.length → Tiles start stop cs → ∀ x ∈ cs,
        (firstRows g tokens g.unaryRules g.branchingRules (stop - start - 1)).cell x.start x.stop =
          (ofTerminals g tokens).cell x.start x.stop := by
      intro cs hlength htiles x hx
      obtain ⟨-, hxlt, hxle⟩ := htiles.bounds hx
      have hshorter := htiles.shorter hlength hx
      rw [cell_firstRows hxlt (hxle.trans hle) (by omega), cell_ofTerminals hxlt (hxle.trans hle)]
    constructor
    · rintro ⟨i, cs, hway, hlength, halternative, htiles, hall⟩
      refine Or.inr ⟨i, cs, hway, hlength, halternative, htiles, fun x hx => ?_⟩
      rw [← hkeys hlength htiles x hx]
      exact hall x hx
    · rintro (⟨t, -, hone', -⟩ | ⟨i, cs, hway, hlength, halternative, htiles, hall⟩)
      · exact absurd hone' hone
      · refine ⟨i, cs, hway, hlength, halternative, htiles, fun x hx => ?_⟩
        rw [hkeys hlength htiles x hx]
        exact hall x hx

theorem distinct_unaryRules : Cell.Distinct g.unaryRules := by
  rintro ⟨lhs, i, child⟩ hr ⟨lhs', i', child'⟩ hr' hlhs hindex
  obtain ⟨rfl, rfl⟩ : lhs = lhs' ∧ i = i' := ⟨hlhs, hindex⟩
  have h := hg.mem_unaryRules.mp hr
  have h' := hg.mem_unaryRules.mp hr'
  dsimp only at h h'
  rw [h] at h'
  simpa using h'

theorem fresh_openCell (hlt : start < stop) (hle : stop ≤ tokens.length) :
    Cell.Fresh g.unaryRules (openCell g tokens start stop) := by
  intro r hr
  rw [Bool.eq_false_iff]
  intro hrecords
  obtain ⟨way, hway, hby⟩ := List.any_eq_true.mp hrecords
  rcases (mem_get_openCell hg hlt hle).mp hway with
    ⟨t, rfl, -⟩ | ⟨i, cs, rfl, hlength, halternative, -⟩
  · cases hby
  · obtain rfl : i = r.index := by simpa [Way.isBy] using hby
    have heq := (hg.mem_unaryRules.mp hr).symm.trans halternative
    have hone := congrArg List.length (Option.some.inj heq)
    simp only [List.length_singleton, List.length_map] at hone
    omega

theorem nodup_get_openCell (hsmall : g.Small) (nt : SymbolId) :
    ((openCell g tokens start stop).get nt).Nodup := by
  unfold openCell
  split_ifs
  · cases h : tokens[start]? with
    | none =>
      unfold lexicalCell
      rw [h]
      exact List.nodup_nil
    | some t =>
      rw [get_lexicalCell h, List.nodup_replicate]
      exact List.nodup_iff_count_le_one.mp (hg.nodup_lexicon t) nt
  · exact (pairwise_get_branchingCell hsmall _ nt).imp Way.Before.ne

theorem nodup_ways (hsmall : g.Small) (nt : SymbolId) :
    ((ofTerminals g tokens).ways start stop nt).Nodup := by
  unfold ways
  by_cases h : start < stop ∧ stop ≤ tokens.length
  · rw [cell_ofTerminals h.1 h.2]
    exact Cell.nodup_get_close full_openCell (fresh_openCell hg h.1 h.2)
      (nodup_get_openCell hg hsmall nt)
  · rw [cell_eq_empty h]
    exact List.nodup_nil

/-- A way is open, or unary over an edge of the same stretch. -/
theorem mem_ways (hlt : start < stop) (hle : stop ≤ tokens.length) {nt : SymbolId} {way : Way} :
    way ∈ (ofTerminals g tokens).ways start stop nt ↔
      way ∈ (openCell g tokens start stop).get nt ∨
        ∃ i child, (g.alternatives nt)[i]? = some [.nonTerminal child] ∧
          (ofTerminals g tokens).ways start stop child ≠ [] ∧
            way = .split i [⟨start, stop, child⟩] := by
  have hfull : ((openCell g tokens start stop).close g.unaryRules start stop).Full :=
    (Cell.extends_close _ _ _ full_openCell).1.full
  unfold ways
  rw [cell_ofTerminals hlt hle, Cell.mem_get_close (distinct_unaryRules hg) full_openCell
    (fresh_openCell hg hlt hle)]
  refine or_congr_right ⟨?_, ?_⟩
  · intro h
    obtain ⟨r, hr, rfl, hchild, rfl⟩ := h
    exact ⟨r.index, r.child, hg.mem_unaryRules.mp hr, hfull.hasKey_iff.mp hchild, rfl⟩
  · rintro ⟨i, child, halternative, hchild, rfl⟩
    exact ⟨⟨nt, i, child⟩, hg.mem_unaryRules.mpr halternative, rfl,
      hfull.hasKey_iff.mpr hchild, rfl⟩

theorem word_mem_ways {nt t : SymbolId} :
    .word t ∈ (ofTerminals g tokens).ways start stop nt ↔
      stop = start + 1 ∧ tokens[start]? = some t ∧ [.terminal t] ∈ g.alternatives nt := by
  by_cases h : start < stop ∧ stop ≤ tokens.length
  · rw [mem_ways hg h.1 h.2, mem_get_openCell hg h.1 h.2]
    constructor
    · rintro ((⟨t', heq, hone, ht, halternative⟩ | ⟨i, cs, heq, -⟩) | ⟨i, child, -, -, heq⟩)
      · obtain rfl := Way.word.inj heq
        exact ⟨hone, ht, halternative⟩
      · cases heq
      · cases heq
    · rintro ⟨hone, ht, halternative⟩
      exact Or.inl (Or.inl ⟨t, rfl, hone, ht, halternative⟩)
  · constructor
    · intro hway
      exact absurd (bounds_of_ways_ne_nil (List.ne_nil_of_mem hway)) h
    · rintro ⟨rfl, ht, -⟩
      have hlength := (List.getElem?_eq_some_iff.mp ht).1
      exact absurd ⟨Nat.lt_succ_self start, hlength⟩ h

theorem split_mem_ways {nt : SymbolId} {i : Nat} {cs : List Edge} :
    .split i cs ∈ (ofTerminals g tokens).ways start stop nt ↔
      (g.alternatives nt)[i]? = some (cs.map Edge.symbol) ∧ cs ≠ [] ∧ Tiles start stop cs ∧
        stop ≤ tokens.length ∧ ∀ x ∈ cs, (ofTerminals g tokens).waysOf x ≠ [] := by
  have hkey : ∀ x : Edge,
      ((ofTerminals g tokens).cell x.start x.stop).hasKey x.category = true ↔
        (ofTerminals g tokens).waysOf x ≠ [] := fun x => full_cell.hasKey_iff
  by_cases h : start < stop ∧ stop ≤ tokens.length
  · rw [mem_ways hg h.1 h.2, mem_get_openCell hg h.1 h.2]
    constructor
    · rintro ((⟨t, heq, -⟩ | ⟨i', cs', heq, hlength, halternative, htiles, hall⟩) |
        ⟨i', child, halternative, hchild, heq⟩)
      · cases heq
      · obtain ⟨rfl, rfl⟩ := Way.split.inj heq
        have hne : cs ≠ [] := List.ne_nil_of_length_pos (by omega)
        exact ⟨halternative, hne, htiles, h.2, fun x hx => (hkey x).mp (hall x hx)⟩
      · obtain ⟨rfl, rfl⟩ := Way.split.inj heq
        refine ⟨halternative, List.cons_ne_nil _ _, Tiles.singleton_iff.mpr ⟨rfl, rfl, h.1⟩,
          h.2, ?_⟩
        intro x hx
        obtain rfl := List.mem_singleton.mp hx
        exact hchild
    · rintro ⟨halternative, hne, htiles, -, hall⟩
      match cs with
      | [] => exact absurd rfl hne
      | [x] =>
        obtain ⟨hstart, hstop, -⟩ := Tiles.singleton_iff.mp htiles
        have hx := hall x (List.mem_singleton_self x)
        refine Or.inr ⟨i, x.category, halternative, ?_, ?_⟩
        · rw [← hstart, ← hstop]
          exact hx
        · rw [← hstart, ← hstop]
      | x :: y :: rest =>
        refine Or.inl (Or.inr ⟨i, _, rfl, ?_, halternative, htiles, fun z hz => ?_⟩)
        · simp
        · exact (hkey z).mpr (hall z hz)
  · constructor
    · intro hway
      exact absurd (bounds_of_ways_ne_nil (List.ne_nil_of_mem hway)) h
    · rintro ⟨-, hne, htiles, hle, -⟩
      have hlength := htiles.add_length_le
      have hpos := List.length_pos_of_ne_nil hne
      exact absurd ⟨by omega, hle⟩ h

theorem lt_size_of_ways_ne_nil {nt : SymbolId}
    (h : (ofTerminals g tokens).ways start stop nt ≠ []) : nt.toNat < g.rules.size := by
  obtain ⟨way, hway⟩ := List.exists_mem_of_ne_nil _ h
  cases way with
  | word t =>
    obtain ⟨-, -, halternative⟩ := (word_mem_ways hg).mp hway
    exact Grammar.lt_size_rules halternative
  | split i cs =>
    obtain ⟨halternative, -⟩ := (split_mem_ways hg).mp hway
    exact Grammar.lt_size_rules (List.mem_of_getElem? halternative)

omit hg

/-- A chart has exactly the ways that the grammar and the sentence allow, each of them once. The
children of a way by an alternative are labelled with its symbols, and have ways themselves. -/
structure Exact (g : Grammar) (words : List String) (c : Chart) : Prop where
  nodup (start stop : Nat) (nt : SymbolId) : (c.ways start stop nt).Nodup
  word_mem_iff (start stop : Nat) (nt t : SymbolId) :
    .word t ∈ c.ways start stop nt ↔
      stop = start + 1 ∧ (∃ word, words[start]? = some word ∧ g.terminals.id? word = some t) ∧
        [.terminal t] ∈ g.alternatives nt
  split_mem_iff (start stop : Nat) (nt : SymbolId) (i : Nat) (cs : List Edge) :
    .split i cs ∈ c.ways start stop nt ↔
      (g.alternatives nt)[i]? = some (cs.map Edge.symbol) ∧ cs ≠ [] ∧ Tiles start stop cs ∧
        stop ≤ words.length ∧ ∀ x ∈ cs, c.waysOf x ≠ []
  ways_ne_nil (start stop : Nat) (nt : SymbolId) :
    (c.cell start stop).hasKey nt = true → c.ways start stop nt ≠ []
  hasKey_eq_false (start stop : Nat) (nt : SymbolId) :
    stop ≤ start → (c.cell start stop).hasKey nt = false

theorem exact_of_ofTokens (hloaded : g.Loaded) (hsmall : g.Small) {words : List String} {c : Chart}
    (h : ofTokens g words = .ok c) : c.Exact g words := by
  have hg : g.Coherent := hloaded.wellFormed.toCoherent
  obtain ⟨tokens, hids, rfl⟩ := ofTokens_eq_ok.mp h
  refine ⟨fun start stop nt => nodup_ways hg hsmall nt, ?_, ?_, ?_, ?_⟩
  · intro start stop nt t
    rw [word_mem_ways hg, hids.getElem?_eq_some]
  · intro start stop nt i cs
    rw [split_mem_ways hg, hids.length_eq]
  · intro start stop nt hkey
    exact full_cell.hasKey_iff.mp hkey
  · intro start stop nt hle
    have hempty : ¬(start < stop ∧ stop ≤ tokens.length) := by omega
    rw [cell_eq_empty hempty]
    exact Multimap.hasKey_empty nt

theorem spells_bracketings : Grammar.bracketings.Spells ["a", "a", "a"] [0, 0, 0] := by
  have hid : Grammar.bracketings.terminals.id? "a" = some 0 := by decide +kernel
  exact .cons hid (.cons hid (.cons hid .nil))

theorem ofTokens_bracketings :
    ofTokens .bracketings ["a", "a", "a"] = .ok (ofTerminals .bracketings [0, 0, 0]) :=
  ofTokens_eq_ok.mpr ⟨[0, 0, 0], spells_bracketings, rfl⟩

/-- Three words in all their bracketings. -/
theorem exact_bracketings :
    (ofTerminals .bracketings [0, 0, 0]).Exact .bracketings ["a", "a", "a"] :=
  exact_of_ofTokens Grammar.loaded_bracketings Grammar.small_bracketings ofTokens_bracketings

end Chart

end PhraseStructure
