import Mathlib.Tactic
import PhraseStructure.Proofs.Chart

/-!
# The closure as a least set

The passes over the unary rules come to an end before they are cut off. The non-terminals of the
closed cell are the least set with those of the open cell that has, with the child of a unary rule,
its left-hand side as well. So they do not depend on the order in which the rules are applied, and
neither do the ways, but for the order of those that the closure adds.
-/

namespace PhraseStructure

namespace Cell

variable {rules rules' : List UnaryRule} {start stop : Nat} {base cell : Cell}

def keys (cell : Cell) : Set SymbolId := {nt | cell.hasKey nt = true}

/-- A loop of passes that makes one cell of another, and the number of its passes. A pass that adds
something is followed by another one. -/
inductive Loop (rules : List UnaryRule) (start stop : Nat) : (passes : Nat) → Cell → Cell → Prop
  | last {cell closed : Cell} :
      unaryPass rules start stop cell = (closed, false) → Loop rules start stop 1 cell closed
  | again {passes : Nat} {cell next closed : Cell} :
      unaryPass rules start stop cell = (next, true) → Loop rules start stop passes next closed →
        Loop rules start stop (passes + 1) cell closed

/-- The loop ends by itself when at most as many passes are allowed as there are rules to record and
one more. -/
theorem loop_closeWithin (start stop : Nat) {passes : Nat} (hpasses : pending rules cell < passes) :
    ∃ n ≤ pending rules cell + 1,
      Loop rules start stop n cell (closeWithin rules start stop passes cell) := by
  induction passes generalizing cell with
  | zero => exact absurd hpasses (Nat.not_lt_zero _)
  | succ passes ih =>
    rw [closeWithin]
    cases hpass : unaryPass rules start stop cell with
    | mk next added =>
      cases added with
      | false => exact ⟨1, Nat.le_add_left _ _, .last hpass⟩
      | true =>
        have hfewer : pending rules next < pending rules cell := by
          have hadded : (unaryPass rules start stop cell).2 = true := by rw [hpass]
          have hnext : (unaryPass rules start stop cell).1 = next := by rw [hpass]
          rw [← hnext]
          exact ((pending_foldl_applyUnary (List.Subset.refl _)).2 hadded).resolve_left
            Bool.false_ne_true
        obtain ⟨n, hn, hloop⟩ := ih (show pending rules next < passes by omega)
        exact ⟨n + 1, by omega, .again hpass hloop⟩

theorem loop_close (rules : List UnaryRule) (start stop : Nat) (cell : Cell) :
    ∃ n ≤ rules.length + 1, Loop rules start stop n cell (cell.close rules start stop) := by
  have hpending : pending rules cell ≤ rules.length := List.countP_le_length
  obtain ⟨n, hn, hloop⟩ := loop_closeWithin start stop (Nat.lt_succ_of_le hpending)
  exact ⟨n, by omega, hloop⟩

theorem unaryPass_induction {P : Cell → Prop}
    (hstep : ∀ cell, P cell → ∀ r ∈ rules, cell.hasKey r.child = true →
      P (cell.append r.lhs [r.way start stop]))
    (hcell : P cell) : P (unaryPass rules start stop cell).1 := by
  have hrun : ∀ rs ⊆ rules, ∀ state : Cell × Bool, P state.1 →
      P (rs.foldl (applyUnary start stop) state).1 := by
    intro rs
    induction rs with
    | nil => exact fun _ _ h => h
    | cons r rs ih =>
      intro hrs state h
      obtain ⟨hr, hrs⟩ := List.cons_subset.mp hrs
      apply ih hrs
      rw [applyUnary_eq]
      split_ifs with hready
      · exact hstep _ h r hr hready.1
      · exact h
  exact hrun rules (List.Subset.refl _) (cell, false) hcell

theorem Loop.induction {P : Cell → Prop}
    (hstep : ∀ cell, P cell → ∀ r ∈ rules, cell.hasKey r.child = true →
      P (cell.append r.lhs [r.way start stop]))
    {n : Nat} {closed : Cell} (h : Loop rules start stop n cell closed) (hcell : P cell) :
    P closed := by
  induction h with
  | last hpass =>
    have hnext := unaryPass_induction hstep hcell
    rwa [hpass] at hnext
  | again hpass _ ih =>
    have hnext := unaryPass_induction hstep hcell
    rw [hpass] at hnext
    exact ih hnext

theorem close_induction {P : Cell → Prop}
    (hstep : ∀ cell, P cell → ∀ r ∈ rules, cell.hasKey r.child = true →
      P (cell.append r.lhs [r.way start stop]))
    (hcell : P cell) : P (cell.close rules start stop) := by
  obtain ⟨n, -, hloop⟩ := loop_close rules start stop cell
  exact hloop.induction hstep hcell

theorem Closed.mem_keys (h : Closed rules cell) {r : UnaryRule} (hr : r ∈ rules)
    (hchild : r.child ∈ cell.keys) : r.lhs ∈ cell.keys := by
  obtain ⟨way, hway, -⟩ := List.any_eq_true.mp (h r hr hchild)
  exact Multimap.hasKey_of_get_ne_nil (List.ne_nil_of_mem hway)

theorem isLeast_keys_close (rules : List UnaryRule) (start stop : Nat) (hbase : base.Full) :
    IsLeast {S : Set SymbolId | base.keys ⊆ S ∧ ∀ r ∈ rules, r.child ∈ S → r.lhs ∈ S}
      (base.close rules start stop).keys := by
  refine ⟨⟨?_, fun r => (extends_close rules start stop hbase).2.mem_keys⟩, ?_⟩
  · refine close_induction (P := fun cell => base.keys ⊆ cell.keys) ?_ (Set.Subset.refl _)
    intro cell hcell r _ _ nt hnt
    have hkey : cell.hasKey nt = true := hcell hnt
    change (cell.append r.lhs [r.way start stop]).hasKey nt = true
    rw [Multimap.hasKey_append, hkey, Bool.or_true]
  · rintro S ⟨hold, hrules⟩
    refine close_induction (P := fun cell => cell.keys ⊆ S) ?_ hold
    intro cell hcell r hr hchild nt hnt
    have hkey : (cell.append r.lhs [r.way start stop]).hasKey nt = true := hnt
    rw [Multimap.hasKey_append, Bool.or_eq_true, decide_eq_true_eq] at hkey
    rcases hkey with rfl | hkey
    · exact hrules r hr (hcell hchild)
    · exact hcell hkey

/-- Nothing is added to a cell in which all rules are recorded that can be. -/
theorem Closed.unaryPass_eq (h : Closed rules cell) :
    unaryPass rules start stop cell = (cell, false) := by
  unfold unaryPass
  induction rules with
  | nil => rfl
  | cons r rs ih =>
    obtain ⟨hr, hrs⟩ := List.forall_mem_cons.mp h
    have hdone : ¬(cell.hasKey r.child = true ∧ records cell r = false) := by
      rintro ⟨hchild, hnew⟩
      rw [hr hchild] at hnew
      cases hnew
    rw [List.foldl_cons, applyUnary_eq, if_neg hdone]
    exact ih hrs

theorem Closed.close_eq (h : Closed rules cell) : cell.close rules start stop = cell := by
  rw [close, closeWithin, h.unaryPass_eq]
  rfl

theorem keys_close_of_perm (hrules : rules.Perm rules') (hbase : base.Full) :
    (base.close rules start stop).keys = (base.close rules' start stop).keys := by
  have hleast := isLeast_keys_close rules start stop hbase
  simp only [hrules.mem_iff] at hleast
  exact hleast.unique (isLeast_keys_close rules' start stop hbase)

theorem perm_get_close (hdistinct : Distinct rules') (hrules : rules.Perm rules')
    (hbase : base.Full) (hfresh : Fresh rules' base) (nt : SymbolId) :
    ((base.close rules start stop).get nt).Perm ((base.close rules' start stop).get nt) := by
  have hkeys : ∀ k, (base.close rules start stop).hasKey k = true ↔
      (base.close rules' start stop).hasKey k = true :=
    Set.ext_iff.mp (keys_close_of_perm hrules hbase)
  have hdistinct' : Distinct rules := fun r hr r' hr' =>
    hdistinct r (hrules.mem_iff.mp hr) r' (hrules.mem_iff.mp hr')
  have hfresh' : Fresh rules base := fun r hr => hfresh r (hrules.mem_iff.mp hr)
  obtain ⟨added, hget, hindices, hadded⟩ :=
    exists_get_close start stop hdistinct' hbase hfresh' nt
  obtain ⟨added', hget', hindices', hadded'⟩ :=
    exists_get_close start stop hdistinct hbase hfresh nt
  have hperm : added.Perm added' := by
    apply (List.perm_ext_iff_of_nodup hindices.of_map hindices'.of_map).mpr
    intro r
    rw [hadded, hadded', hrules.mem_iff, hkeys]
  rw [hget, hget']
  exact (hperm.map _).append_left _

variable {g : Grammar}

/-- What the unary closure, by the unary rules in some order, makes of a cell: the loop ends in
time, the keys are the least closed set, and each unary alternative that applies is recorded once
behind the ways that were there before. -/
structure Closes (g : Grammar) (rules : List UnaryRule) (start stop : Nat) (base closed : Cell) :
    Prop where
  loop : ∃ n ≤ rules.length + 1, Loop rules start stop n base closed
  keys : IsLeast {S : Set SymbolId | base.keys ⊆ S ∧
    ∀ nt child, [.nonTerminal child] ∈ g.alternatives nt → child ∈ S → nt ∈ S} closed.keys
  ways (nt : SymbolId) : ∃ unary : List Way, closed.get nt = base.get nt ++ unary ∧
    ∀ way, way ∈ unary ↔ ∃ i child, (g.alternatives nt)[i]? = some [.nonTerminal child] ∧
      child ∈ closed.keys ∧ way = .split i [⟨start, stop, child⟩]
  once {nt child : SymbolId} {i : Nat} : (g.alternatives nt)[i]? = some [.nonTerminal child] →
    child ∈ closed.keys → (closed.get nt).countP (Way.isBy i) = 1
  again : closed.close rules start stop = closed

theorem fresh_of_split (hg : g.Coherent)
    (h : ∀ nt i cs child, .split i cs ∈ base.get nt →
      (g.alternatives nt)[i]? ≠ some [.nonTerminal child]) :
    Fresh g.unaryRules base := by
  intro r hr
  rw [Bool.eq_false_iff]
  intro hrecords
  obtain ⟨way, hway, hby⟩ := List.any_eq_true.mp hrecords
  cases way with
  | word t => cases hby
  | split i cs =>
    obtain rfl : i = r.index := by simpa [Way.isBy] using hby
    exact h r.lhs _ cs r.child hway (hg.mem_unaryRules.mp hr)

theorem closes_close (hg : g.Coherent) (hrules : rules.Perm g.unaryRules) (hbase : base.Full)
    (hfresh : Fresh rules base) : Closes g rules start stop base (base.close rules start stop) := by
  have hrule : ∀ {r : UnaryRule}, r ∈ rules ↔
      (g.alternatives r.lhs)[r.index]? = some [.nonTerminal r.child] := by
    intro r
    rw [hrules.mem_iff, hg.mem_unaryRules]
  have hdistinct : Distinct rules := fun r hr r' hr' =>
    Chart.distinct_unaryRules hg r (hrules.mem_iff.mp hr) r' (hrules.mem_iff.mp hr')
  refine ⟨loop_close rules start stop base, ?_, ?_, ?_, ?_⟩
  · have hset : ∀ S : Set SymbolId, (∀ r ∈ rules, r.child ∈ S → r.lhs ∈ S) ↔
        ∀ nt child, [.nonTerminal child] ∈ g.alternatives nt → child ∈ S → nt ∈ S := by
      intro S
      constructor
      · intro h nt child halternative
        obtain ⟨i, hi⟩ := List.mem_iff_getElem?.mp halternative
        exact h ⟨nt, i, child⟩ (hrule.mpr hi)
      · intro h r hr
        exact h r.lhs r.child (List.mem_of_getElem? (hrule.mp hr))
    have hleast := isLeast_keys_close rules start stop hbase
    simp only [hset] at hleast
    exact hleast
  · intro nt
    obtain ⟨added, hget, -, hadded⟩ :=
      exists_get_close start stop hdistinct hbase hfresh nt
    refine ⟨_, hget, fun way => ?_⟩
    rw [List.mem_map]
    constructor
    · rintro ⟨r, hr, rfl⟩
      obtain ⟨hmem, rfl, hkey⟩ := (hadded r).mp hr
      exact ⟨r.index, r.child, hrule.mp hmem, hkey, rfl⟩
    · rintro ⟨i, child, halternative, hkey, rfl⟩
      exact ⟨⟨nt, i, child⟩, (hadded _).mpr ⟨hrule.mpr halternative, rfl, hkey⟩, rfl⟩
  · intro nt child i halternative hkey
    obtain ⟨added, hget, hindices, hadded⟩ :=
      exists_get_close start stop hdistinct hbase hfresh nt
    have hmem : (⟨nt, i, child⟩ : UnaryRule) ∈ rules := hrule.mpr halternative
    have hold : (base.get nt).countP (Way.isBy i) = 0 := by
      rw [List.countP_eq_zero]
      intro way hway hby
      have hnone := hfresh _ hmem
      rw [records, List.any_eq_false] at hnone
      exact hnone way hway hby
    calc ((base.close rules start stop).get nt).countP (Way.isBy i)
        = (added.map (UnaryRule.way start stop)).countP (Way.isBy i) := by
          rw [hget, List.countP_append, hold, Nat.zero_add]
      _ = (added.map UnaryRule.index).count i := by
          rw [List.countP_map, List.count, List.countP_map]
          rfl
      _ = 1 := List.count_eq_one_of_mem hindices
          (List.mem_map_of_mem ((hadded _).mpr ⟨hmem, rfl, hkey⟩))
  · exact (extends_close rules start stop hbase).2.close_eq

/-- The unary closure of a cell without unary ways. Any order of the unary rules gives the same
keys, and the same ways of each non-terminal but for the order of the unary ones. -/
theorem closes_of_perm (hloaded : g.Loaded) (hbase : base.Full)
    (hnone : ∀ nt i cs child, .split i cs ∈ base.get nt →
      (g.alternatives nt)[i]? ≠ some [.nonTerminal child])
    (hrules : rules.Perm g.unaryRules) :
    Closes g rules start stop base (base.close rules start stop) ∧
      (base.close rules start stop).keys = (base.close g.unaryRules start stop).keys ∧
        ∀ nt, ((base.close rules start stop).get nt).Perm
          ((base.close g.unaryRules start stop).get nt) := by
  have hg : g.Coherent := hloaded.wellFormed.toCoherent
  have hfresh : Fresh g.unaryRules base := fresh_of_split hg hnone
  refine ⟨?_, keys_close_of_perm hrules hbase, ?_⟩
  · exact closes_close hg hrules hbase fun r hr => hfresh r (hrules.mem_iff.mp hr)
  · exact perm_get_close (Chart.distinct_unaryRules hg) hrules hbase hfresh

/-- A chain of unary rules above one word. -/
def chain : Grammar :=
  (Grammar.ofRuleText "A -> B\nB -> C\nC -> \"c\"").toOption.get (by decide +kernel)

def chainWord : Cell := (∅ : Cell).append 2 [.word 0]

/-- The other non-terminals of the chain are added, also with its rules taken backwards. -/
theorem closes_chain : chain.unaryRules.reverse.Perm chain.unaryRules ∧ chainWord.Full ∧
    Closes chain chain.unaryRules.reverse 0 1 chainWord
      (chainWord.close chain.unaryRules.reverse 0 1) ∧
    (chainWord.close chain.unaryRules.reverse 0 1).get 0 = [.split 0 [⟨0, 1, 1⟩]] := by
  have hloaded : chain.Loaded := .ofRuleText (Except.eq_ok_get _)
  have hfull : chainWord.Full := Multimap.full_empty.append 2 (List.cons_ne_nil _ _)
  have hwords : ∀ nt i cs child, .split i cs ∈ chainWord.get nt →
      (chain.alternatives nt)[i]? ≠ some [.nonTerminal child] := by
    intro nt i cs child h
    rw [chainWord, Multimap.get_append] at h
    split_ifs at h <;> simp at h
  have hperm : chain.unaryRules.reverse.Perm chain.unaryRules := List.reverse_perm _
  exact ⟨hperm, hfull, (closes_of_perm hloaded hfull hwords hperm).1, by decide +kernel⟩

end Cell

end PhraseStructure
