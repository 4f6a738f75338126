import Mathlib.Tactic
import PhraseStructure.Benchmark.Run
import PhraseStructure.Proofs.Convolution

/-!
# Attachment of prepositional phrases

In a sentence of the benchmark, the category of a word depends on its position alone, and a phrase
begins at a preposition. The noun phrases with `k` phrases behind them are counted by the Catalan
numbers, because each phrase holds a noun phrase again. The verb phrases are counted by them too:
some of the phrases belong to the object, and the verb phrase itself takes the others.
-/

namespace PhraseStructure.Benchmark

open Chart

abbrev clause : SymbolId := 0
abbrev nounPhrase : SymbolId := 1
abbrev verbPhrase : SymbolId := 2
abbrev prepPhrase : SymbolId := 3
abbrev noun : SymbolId := 4
abbrev determiner : SymbolId := 5
abbrev verb : SymbolId := 6
abbrev preposition : SymbolId := 7

def lexical : List SymbolId := [noun, determiner, verb, preposition]

def isWord : Production → Bool
  | [.terminal _] => true
  | _ => false

theorem exists_of_isWord {p : Production} (h : isWord p = true) : ∃ t, p = [.terminal t] := by
  unfold isWord at h
  split at h
  · exact ⟨_, rfl⟩
  · cases h

/-- What the grammar of the benchmark says about its sentences. -/
structure Attaching (g : Grammar) : Prop where
  loaded : g.Loaded
  small : g.Small
  start : g.start = clause
  clause_rules : g.alternatives clause = [[.nonTerminal nounPhrase, .nonTerminal verbPhrase]]
  nounPhrase_rules : g.alternatives nounPhrase = [[.nonTerminal noun],
    [.nonTerminal determiner, .nonTerminal noun],
    [.nonTerminal nounPhrase, .nonTerminal prepPhrase]]
  verbPhrase_rules : g.alternatives verbPhrase = [[.nonTerminal verb, .nonTerminal nounPhrase],
    [.nonTerminal verbPhrase, .nonTerminal prepPhrase]]
  prepPhrase_rules : g.alternatives prepPhrase =
    [[.nonTerminal preposition, .nonTerminal nounPhrase]]
  word_rules {nt : SymbolId} {p : Production} : nt ∈ lexical → p ∈ g.alternatives nt →
    ∃ t, p = [.terminal t]
  base : baseSentence.map g.categories = [[noun], [verb], [determiner], [noun]]
  phrases (n : Nat) : n < 3 → (phrase n).map g.categories = [[preposition], [determiner], [noun]]

theorem exists_attaching : ∃ g, grammar = .ok g ∧ Attaching g := by
  have hread : grammar.toOption.any fun g => decide (
      (g.nonTerminals.size < UInt32.size ∧ g.terminals.size < UInt32.size) ∧
      g.start = clause ∧
      g.alternatives clause = [[.nonTerminal nounPhrase, .nonTerminal verbPhrase]] ∧
      g.alternatives nounPhrase = [[.nonTerminal noun],
        [.nonTerminal determiner, .nonTerminal noun],
        [.nonTerminal nounPhrase, .nonTerminal prepPhrase]] ∧
      g.alternatives verbPhrase = [[.nonTerminal verb, .nonTerminal nounPhrase],
        [.nonTerminal verbPhrase, .nonTerminal prepPhrase]] ∧
      g.alternatives prepPhrase = [[.nonTerminal preposition, .nonTerminal nounPhrase]] ∧
      (lexical.all fun nt => (g.alternatives nt).all isWord) = true ∧
      baseSentence.map g.categories = [[noun], [verb], [determiner], [noun]] ∧
      ((List.range 3).map fun n => (phrase n).map g.categories) =
        List.replicate 3 [[preposition], [determiner], [noun]]) := by
    decide +kernel
  cases hg : grammar with
  | error e =>
    rw [hg] at hread
    cases hread
  | ok g =>
    rw [hg] at hread
    obtain ⟨hsmall, hstart, hclause, hnoun, hverb, hprep, hword, hbase, hphrases⟩ :=
      of_decide_eq_true hread
    refine ⟨g, rfl, .ofRuleText hg, ⟨hsmall.1, hsmall.2⟩, hstart, hclause, hnoun, hverb, hprep,
      ?_, hbase, ?_⟩
    · intro nt p hnt hp
      exact exists_of_isWord (List.all_eq_true.mp (List.all_eq_true.mp hword nt hnt) p hp)
    · intro n hn
      have hmem := List.mem_map_of_mem (f := fun n => (phrase n).map g.categories)
        (List.mem_range.mpr hn)
      rw [hphrases] at hmem
      exact List.eq_of_mem_replicate hmem

/-- The category of the word at a position. -/
def categoryAt (position : Nat) : SymbolId :=
  if position = 1 then verb
  else if position % 3 = 0 then noun
  else if position % 3 = 1 then preposition
  else determiner

theorem categoryAt_mem_lexical (position : Nat) : categoryAt position ∈ lexical := by
  unfold categoryAt
  split_ifs <;> decide

theorem categoryAt_eq_noun {position : Nat} : categoryAt position = noun ↔ position % 3 = 0 := by
  unfold categoryAt
  split_ifs <;> simp +decide <;> omega

theorem categoryAt_eq_determiner {position : Nat} :
    categoryAt position = determiner ↔ position % 3 = 2 := by
  unfold categoryAt
  split_ifs <;> simp +decide <;> omega

theorem categoryAt_eq_verb {position : Nat} : categoryAt position = verb ↔ position = 1 := by
  unfold categoryAt
  split_ifs <;> simp +decide [*]

theorem categoryAt_eq_preposition {position : Nat} :
    categoryAt position = preposition ↔ position % 3 = 1 ∧ position ≠ 1 := by
  unfold categoryAt
  split_ifs <;> simp +decide <;> omega

theorem length_tokens {g : Grammar} {m : Nat} {tokens : List SymbolId}
    (hs : g.Spells (sentence m) tokens) : tokens.length = 4 + 3 * m := by
  rw [← hs.length_eq, length_sentence]

namespace Attaching

variable {g : Grammar} (h : Attaching g)
include h

theorem categories_phrase (n : Nat) :
    (phrase n).map g.categories = [[preposition], [determiner], [noun]] := by
  have hturn : phrase n = phrase (n % 3) := by
    unfold phrase
    rw [Nat.mod_mod]
  rw [hturn]
  exact h.phrases _ (Nat.mod_lt n (by decide))

theorem categories_sentence (m : Nat) :
    (sentence m).map g.categories = (List.range (4 + 3 * m)).map fun i => [categoryAt i] := by
  induction m with
  | zero => exact h.base
  | succ m ih =>
    have hprep : categoryAt (4 + 3 * m) = preposition :=
      categoryAt_eq_preposition.mpr ⟨by omega, by omega⟩
    have hdet : categoryAt (4 + 3 * m + 1) = determiner := categoryAt_eq_determiner.mpr (by omega)
    have hnoun : categoryAt (4 + 3 * m + 2) = noun := categoryAt_eq_noun.mpr (by omega)
    have hnext : sentence (m + 1) = sentence m ++ phrase m := by
      rw [sentence, sentence, List.range_succ, List.flatMap_append, List.flatMap_singleton,
        List.append_assoc]
    rw [hnext, List.map_append, ih, h.categories_phrase, Nat.mul_succ, ← Nat.add_assoc,
      List.range_succ, List.range_succ, List.range_succ]
    simp [hprep, hdet, hnoun]

theorem knowsWord {m : Nat} {word : String} (hword : word ∈ sentence m) :
    g.knowsWord word = true := by
  have hmem := List.mem_map_of_mem (f := g.categories) hword
  rw [h.categories_sentence, List.mem_map] at hmem
  obtain ⟨i, -, hi⟩ := hmem
  rw [Grammar.knowsWord, ← hi]
  rfl

variable {m : Nat} {tokens : List SymbolId} (hs : g.Spells (sentence m) tokens)
include hs

theorem length_wordWays {start stop : Nat} (hstop : stop ≤ 4 + 3 * m) (nt : SymbolId) :
    (wordWays g tokens start stop nt).length =
      if stop = start + 1 ∧ categoryAt start = nt then 1 else 0 := by
  unfold wordWays
  cases ht : tokens[start]? with
  | none =>
    have hlength := List.getElem?_eq_none_iff.mp ht
    rw [length_tokens hs] at hlength
    rw [if_neg (by omega)]
    rfl
  | some t =>
    obtain ⟨word, hword, hid⟩ := hs.getElem?_eq_some.mp ht
    have hcategories : g.lexicon.get t = [categoryAt start] := by
      have hmap := congrArg (·[start]?) (h.categories_sentence m)
      have hlt : start < 4 + 3 * m := by
        rw [← length_tokens hs]
        exact (List.getElem?_eq_some_iff.mp ht).1
      simpa [hword, hlt, Grammar.categories, hid] using hmap
    have halternative : [.terminal t] ∈ g.alternatives nt ↔ categoryAt start = nt := by
      rw [← h.loaded.wellFormed.mem_lexicon, hcategories, List.mem_singleton, eq_comm]
    simp only [halternative]
    split_ifs <;> rfl

end Attaching

/-- What the rules say of the counts of the stretches of a sentence with `m` phrases. -/
structure Recurrences (m : Nat) (count : Edge → Nat) : Prop where
  word_eq {start stop : Nat} {nt : SymbolId} : stop ≤ 4 + 3 * m → nt ∈ lexical →
    count ⟨start, stop, nt⟩ = if stop = start + 1 ∧ categoryAt start = nt then 1 else 0
  clause_eq {start stop : Nat} : stop ≤ 4 + 3 * m → count ⟨start, stop, clause⟩ =
    ∑ cut ∈ Finset.Ioo start stop, count ⟨start, cut, nounPhrase⟩ * count ⟨cut, stop, verbPhrase⟩
  nounPhrase_eq {start stop : Nat} : stop ≤ 4 + 3 * m → count ⟨start, stop, nounPhrase⟩ =
    (if start < stop then count ⟨start, stop, noun⟩ else 0) +
      (∑ cut ∈ Finset.Ioo start stop, count ⟨start, cut, determiner⟩ * count ⟨cut, stop, noun⟩ +
        ∑ cut ∈ Finset.Ioo start stop,
          count ⟨start, cut, nounPhrase⟩ * count ⟨cut, stop, prepPhrase⟩)
  verbPhrase_eq {start stop : Nat} : stop ≤ 4 + 3 * m → count ⟨start, stop, verbPhrase⟩ =
    ∑ cut ∈ Finset.Ioo start stop, count ⟨start, cut, verb⟩ * count ⟨cut, stop, nounPhrase⟩ +
      ∑ cut ∈ Finset.Ioo start stop,
        count ⟨start, cut, verbPhrase⟩ * count ⟨cut, stop, prepPhrase⟩
  prepPhrase_eq {start stop : Nat} : stop ≤ 4 + 3 * m → count ⟨start, stop, prepPhrase⟩ =
    ∑ cut ∈ Finset.Ioo start stop,
      count ⟨start, cut, preposition⟩ * count ⟨cut, stop, nounPhrase⟩

theorem Attaching.recurrences {g : Grammar} (h : Attaching g) {m : Nat} {tokens : List SymbolId}
    (hs : g.Spells (sentence m) tokens) :
    Recurrences m ((ofTerminals g tokens).exactCount (ofTerminals g tokens).height) := by
  have hcount : ∀ {start stop : Nat} (nt : SymbolId), stop ≤ 4 + 3 * m →
      (ofTerminals g tokens).exactCount (ofTerminals g tokens).height ⟨start, stop, nt⟩ =
        (if stop = start + 1 ∧ categoryAt start = nt then 1 else 0) +
          ((g.alternatives nt).map fun p => convolved ((ofTerminals g tokens).exactCount
            (ofTerminals g tokens).height) p start stop).sum := by
    intro start stop nt hstop
    rw [exactCount_eq_convolved h.loaded.wellFormed h.small (by rwa [length_tokens hs]),
      h.length_wordWays hs hstop]
  have hphrase : ∀ {start stop : Nat} {nt : SymbolId}, stop ≤ 4 + 3 * m → nt ∉ lexical →
      (ofTerminals g tokens).exactCount (ofTerminals g tokens).height ⟨start, stop, nt⟩ =
        ((g.alternatives nt).map fun p => convolved ((ofTerminals g tokens).exactCount
          (ofTerminals g tokens).height) p start stop).sum := by
    intro start stop nt hstop hnt
    rw [hcount nt hstop, if_neg, Nat.zero_add]
    rintro ⟨-, rfl⟩
    exact hnt (categoryAt_mem_lexical start)
  constructor
  · intro start stop nt hstop hnt
    have hnone : ((g.alternatives nt).map fun p => convolved ((ofTerminals g tokens).exactCount
        (ofTerminals g tokens).height) p start stop).sum = 0 := by
      rw [List.sum_eq_zero_iff, List.forall_mem_map]
      intro p hp
      obtain ⟨t, rfl⟩ := h.word_rules hnt hp
      exact convolved_terminal _ t [] start stop
    rw [hcount nt hstop, hnone, Nat.add_zero]
  · intro start stop hstop
    rw [hphrase hstop (by decide), h.clause_rules]
    simp only [List.map_cons, List.map_nil, List.sum_cons, List.sum_nil, Nat.add_zero,
      convolved_pair]
  · intro start stop hstop
    rw [hphrase hstop (by decide), h.nounPhrase_rules]
    simp only [List.map_cons, List.map_nil, List.sum_cons, List.sum_nil, Nat.add_zero,
      convolved_single, convolved_pair]
  · intro start stop hstop
    rw [hphrase hstop (by decide), h.verbPhrase_rules]
    simp only [List.map_cons, List.map_nil, List.sum_cons, List.sum_nil, Nat.add_zero,
      convolved_pair]
  · intro start stop hstop
    rw [hphrase hstop (by decide), h.prepPhrase_rules]
    simp only [List.map_cons, List.map_nil, List.sum_cons, List.sum_nil, Nat.add_zero,
      convolved_pair]

/-- A sum over the cuts of a stretch that ends at the end of a phrase, when only the cuts in front
of a preposition count. -/
theorem sum_stride {value : Nat → Nat}
    (hvalue : ∀ cut, categoryAt cut ≠ preposition → value cut = 0) {start i : Nat}
    (hlower : 1 + 3 * i ≤ start) (hupper : start < 4 + 3 * i) (k : Nat) :
    ∑ cut ∈ Finset.Ioo start (4 + 3 * (i + k)), value cut =
      ∑ l ∈ Finset.range k, value (4 + 3 * (i + l)) := by
  symm
  rw [← Finset.sum_image (g := fun l => 4 + 3 * (i + l))]
  · apply Finset.sum_subset
    · intro cut hcut
      obtain ⟨l, hl, rfl⟩ := Finset.mem_image.mp hcut
      rw [Finset.mem_range] at hl
      rw [Finset.mem_Ioo]
      omega
    · intro cut hcut hother
      rw [Finset.mem_Ioo] at hcut
      apply hvalue
      intro hprep
      obtain ⟨hmod, -⟩ := categoryAt_eq_preposition.mp hprep
      refine hother (Finset.mem_image.mpr ⟨(cut - 4) / 3 - i, ?_, ?_⟩)
      · rw [Finset.mem_range]
        omega
      · omega
  · intro l _ l' _ heq
    dsimp only at heq
    omega

namespace Recurrences

variable {m : Nat} {count : Edge → Nat} (h : Recurrences m count)
include h

theorem sum_word {nt : SymbolId} (hnt : nt ∈ lexical) {start stop : Nat} (hstop : stop ≤ 4 + 3 * m)
    (value : Nat → Nat) :
    ∑ cut ∈ Finset.Ioo start stop, count ⟨start, cut, nt⟩ * value cut =
      if start + 1 < stop ∧ categoryAt start = nt then value (start + 1) else 0 := by
  have hword : ∀ cut ∈ Finset.Ioo start stop, count ⟨start, cut, nt⟩ * value cut =
      if cut = start + 1 then (if categoryAt start = nt then value (start + 1) else 0) else 0 := by
    intro cut hcut
    rw [h.word_eq ((Finset.mem_Ioo.mp hcut).2.le.trans hstop) hnt]
    by_cases hone : cut = start + 1
    · subst hone
      by_cases hcategory : categoryAt start = nt <;> simp [hcategory]
    · simp [hone]
  rw [Finset.sum_congr rfl hword, Finset.sum_ite_eq', ← ite_and]
  simp only [Finset.mem_Ioo, Nat.lt_succ_self, true_and]

theorem count_prepPhrase {start stop : Nat} (hstop : stop ≤ 4 + 3 * m) :
    count ⟨start, stop, prepPhrase⟩ =
      if start + 1 < stop ∧ categoryAt start = preposition then
        count ⟨start + 1, stop, nounPhrase⟩
      else 0 := by
  rw [h.prepPhrase_eq hstop, h.sum_word (by decide) hstop]

theorem sum_prepPhrase (value : Nat → Nat) {start i k : Nat} (hlower : 1 + 3 * i ≤ start)
    (hupper : start < 4 + 3 * i) (hk : i + k ≤ m) :
    ∑ cut ∈ Finset.Ioo start (4 + 3 * (i + k)),
        value cut * count ⟨cut, 4 + 3 * (i + k), prepPhrase⟩ =
      ∑ l ∈ Finset.range k, value (4 + 3 * (i + l)) *
        count ⟨2 + 3 * (i + l + 1), 4 + 3 * (i + k), nounPhrase⟩ := by
  have hstop : 4 + 3 * (i + k) ≤ 4 + 3 * m := by omega
  have hnone : ∀ cut, categoryAt cut ≠ preposition →
      value cut * count ⟨cut, 4 + 3 * (i + k), prepPhrase⟩ = 0 := by
    intro cut hcut
    rw [h.count_prepPhrase hstop, if_neg (fun hprep => hcut hprep.2), Nat.mul_zero]
  rw [sum_stride hnone hlower hupper]
  apply Finset.sum_congr rfl
  intro l hl
  rw [Finset.mem_range] at hl
  have hprep : categoryAt (4 + 3 * (i + l)) = preposition :=
    categoryAt_eq_preposition.mpr ⟨by omega, by omega⟩
  rw [h.count_prepPhrase hstop, if_pos ⟨by omega, hprep⟩]
  rw [show 4 + 3 * (i + l) + 1 = 2 + 3 * (i + l + 1) by omega]

theorem count_nounPhrase {i k : Nat} (hk : i + k ≤ m) :
    count ⟨2 + 3 * i, 4 + 3 * (i + k), nounPhrase⟩ = catalan k := by
  induction k using Nat.strong_induction_on generalizing i with
  | _ k ih =>
    have hstop : 4 + 3 * (i + k) ≤ 4 + 3 * m := by omega
    have hdet : categoryAt (2 + 3 * i) = determiner := categoryAt_eq_determiner.mpr (by omega)
    have hnoun : categoryAt (2 + 3 * i + 1) = noun := categoryAt_eq_noun.mpr (by omega)
    have hone : count ⟨2 + 3 * i, 4 + 3 * (i + k), noun⟩ = 0 := by
      rw [h.word_eq hstop (by decide), if_neg (by omega)]
    have htwo : count ⟨2 + 3 * i + 1, 4 + 3 * (i + k), noun⟩ = if k = 0 then 1 else 0 := by
      rw [h.word_eq hstop (by decide)]
      exact if_congr ⟨by omega, fun _ => ⟨by omega, hnoun⟩⟩ rfl rfl
    rw [h.nounPhrase_eq hstop, h.sum_word (by decide) hstop, if_pos (by omega), hone,
      if_pos ⟨by omega, hdet⟩, htwo, h.sum_prepPhrase _ (by omega) (by omega) hk]
    cases k with
    | zero => rw [Finset.sum_range_zero, if_pos rfl, catalan_zero, Nat.add_zero, Nat.zero_add]
    | succ k =>
      rw [if_neg (Nat.succ_ne_zero k), Nat.zero_add, Nat.zero_add, catalan_succ_eq_sum_range]
      apply Finset.sum_congr rfl
      intro l hl
      rw [Finset.mem_range] at hl
      have hhead : count ⟨2 + 3 * i, 4 + 3 * (i + l), nounPhrase⟩ = catalan l :=
        ih l hl (by omega)
      have htail : count ⟨2 + 3 * (i + l + 1), 4 + 3 * (i + l + 1 + (k - l)),
          nounPhrase⟩ = catalan (k - l) := ih (k - l) (by omega) (by omega)
      rw [show i + l + 1 + (k - l) = i + (k + 1) by omega] at htail
      rw [hhead, htail]

/-- The verb phrases with `k` phrases, each of which belongs to the verb phrase or to its object. -/
theorem count_verbPhrase {k : Nat} (hk : k ≤ m) :
    count ⟨1, 4 + 3 * k, verbPhrase⟩ = catalan (k + 1) := by
  induction k using Nat.strong_induction_on with
  | _ k ih =>
    have hstop : 4 + 3 * k ≤ 4 + 3 * m := by omega
    have hverb : categoryAt 1 = verb := categoryAt_eq_verb.mpr rfl
    have hobject : ∀ l ≤ k, count ⟨2 + 3 * l, 4 + 3 * k, nounPhrase⟩ = catalan (k - l) := by
      intro l hl
      have hcount := h.count_nounPhrase (show l + (k - l) ≤ m by omega)
      rwa [Nat.add_sub_cancel' hl] at hcount
    have hphrases := h.sum_prepPhrase (fun cut => count ⟨1, cut, verbPhrase⟩)
      (show 1 + 3 * 0 ≤ 1 by decide) (by decide) (show 0 + k ≤ m by omega)
    simp only [Nat.zero_add] at hphrases
    rw [h.verbPhrase_eq hstop, h.sum_word (by decide) hstop, if_pos ⟨by omega, hverb⟩, hphrases,
      catalan_succ_eq_sum_range, Finset.sum_range_succ', catalan_zero, Nat.one_mul, Nat.sub_zero,
      Nat.add_comm]
    have hdirect : count ⟨1 + 1, 4 + 3 * k, nounPhrase⟩ = catalan k :=
      hobject 0 (Nat.zero_le k)
    rw [hdirect]
    congr 1
    apply Finset.sum_congr rfl
    intro l hl
    rw [Finset.mem_range] at hl
    rw [ih l hl (by omega), hobject (l + 1) (by omega)]

theorem verbPhrase_eq_zero {start : Nat} (hstart : start ≠ 1) {stop : Nat}
    (hstop : stop ≤ 4 + 3 * m) : count ⟨start, stop, verbPhrase⟩ = 0 := by
  induction stop using Nat.strong_induction_on with
  | _ stop ih =>
    have hnone : ∀ cut ∈ Finset.Ioo start stop, count ⟨start, cut, verbPhrase⟩ *
        count ⟨cut, stop, prepPhrase⟩ = 0 := by
      intro cut hcut
      have hlt : cut < stop := (Finset.mem_Ioo.mp hcut).2
      rw [ih cut hlt (hlt.le.trans hstop), Nat.zero_mul]
    rw [h.verbPhrase_eq hstop, h.sum_word (by decide) hstop, Finset.sum_eq_zero hnone,
      if_neg (fun hverb => hstart (categoryAt_eq_verb.mp hverb.2)), Nat.add_zero]

theorem count_clause : count ⟨0, 4 + 3 * m, clause⟩ = catalan (m + 1) := by
  have hsubject : count ⟨0, 1, nounPhrase⟩ = 1 := by
    have hnoun : categoryAt 0 = noun := categoryAt_eq_noun.mpr rfl
    have hstop : 1 ≤ 4 + 3 * m := by omega
    rw [h.nounPhrase_eq hstop, h.word_eq hstop (by decide), if_pos Nat.one_pos, if_pos ⟨rfl, hnoun⟩]
    rfl
  rw [h.clause_eq le_rfl, Finset.sum_eq_single 1]
  · rw [hsubject, h.count_verbPhrase le_rfl, Nat.one_mul]
  · intro cut _ hcut
    rw [h.verbPhrase_eq_zero hcut le_rfl, Nat.mul_zero]
  · intro hmem
    exact absurd (Finset.mem_Ioo.mpr ⟨Nat.one_pos, by omega⟩) hmem

end Recurrences

/-- The number of derivations of the sentence with `n` phrases. -/
theorem derivationCount_sentence (n : Nat) : (sentence n).length = 4 + 3 * n ∧
    ∃ g c, grammar = .ok g ∧ (∀ word ∈ sentence n, g.knowsWord word = true) ∧
      Chart.ofTokens g (sentence n) = .ok c ∧
        c.derivationCount g.start = min (catalan (n + 1)) countLimit := by
  obtain ⟨g, hgrammar, h⟩ := exists_attaching
  have hg : g.Coherent := h.loaded.wellFormed.toCoherent
  obtain ⟨tokens, hs⟩ := Grammar.exists_spells fun word hword =>
    hg.knowsWord_iff.mp (h.knowsWord hword)
  obtain ⟨rank, hranked⟩ := exists_ranked h.loaded.wellFormed tokens
  refine ⟨length_sentence n, g, ofTerminals g tokens, hgrammar, fun word => h.knowsWord,
    ofTokens_eq_ok.mpr ⟨tokens, hs, rfl⟩, ?_⟩
  have hlength : (ofTerminals g tokens).length = 4 + 3 * n := length_tokens hs
  rw [hranked.derivationCount_eq, hlength, h.start, (h.recurrences hs).count_clause]

end PhraseStructure.Benchmark
