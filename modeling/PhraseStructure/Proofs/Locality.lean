import Mathlib.Tactic
import PhraseStructure.Proofs.Count

/-!
# What a chart says of a stretch alone

Each step that fills the cell of a stretch reads the cells of stretches inside it and nothing else,
and it does the same thing wherever the stretch begins. So the part of a chart over a stretch of the
sentence is the chart of that stretch, moved to where it begins, with all ways in the same order.
-/

namespace PhraseStructure

/-- The edge that lies `k` tokens further on. -/
def Edge.shift (k : Nat) (e : Edge) : Edge := ⟨k + e.start, k + e.stop, e.category⟩

def Way.shift (k : Nat) : Way → Way
  | .word t => .word t
  | .split i children => .split i (children.map (Edge.shift k))

namespace Multimap

variable {κ ν μ : Type} [DecidableEq κ]

def map (f : ν → μ) (m : Multimap κ ν) : Multimap κ μ :=
  ⟨m.entries.map (Prod.map id (List.map f))⟩

theorem appendTo_map (f : ν → μ) (key : κ) (values : List ν) (entries : List (κ × List ν)) :
    appendTo key (values.map f) (entries.map (Prod.map id (List.map f))) =
      (appendTo key values entries).map (Prod.map id (List.map f)) := by
  induction entries with
  | nil => rfl
  | cons entry rest ih =>
    obtain ⟨k, old⟩ := entry
    rw [List.map_cons, Prod.map_apply, id_eq, appendTo, appendTo, ih]
    split_ifs
    · rw [List.map_cons, Prod.map_apply, List.map_append, id_eq]
    · rw [List.map_cons, Prod.map_apply, id_eq]

theorem map_append (f : ν → μ) (m : Multimap κ ν) (key : κ) (values : List ν) :
    (m.append key values).map f = (m.map f).append key (values.map f) :=
  congrArg Multimap.mk (appendTo_map f key values m.entries).symm

theorem get?_map (f : ν → μ) (m : Multimap κ ν) (key : κ) :
    (m.map f).get? key = (m.get? key).map (List.map f) := by
  unfold get? map
  dsimp only
  induction m.entries with
  | nil => rfl
  | cons entry rest ih =>
    obtain ⟨k, values⟩ := entry
    rw [List.map_cons, Prod.map_apply, id_eq, find, find, ih]
    split_ifs <;> rfl

theorem get_map (f : ν → μ) (m : Multimap κ ν) (key : κ) :
    (m.map f).get key = (m.get key).map f := by
  unfold get
  rw [get?_map]
  cases m.get? key <;> rfl

theorem hasKey_map (f : ν → μ) (m : Multimap κ ν) (key : κ) :
    (m.map f).hasKey key = m.hasKey key := by
  unfold hasKey
  rw [get?_map, Option.isSome_map]

end Multimap

def Cell.shift (k : Nat) (cell : Cell) : Cell := cell.map (Way.shift k)

namespace Cell

variable (k start stop : Nat)

theorem records_shift (cell : Cell) (r : UnaryRule) :
    records (cell.shift k) r = records cell r := by
  have hby : ∀ way : Way, (way.shift k).isBy r.index = way.isBy r.index := by
    intro way
    cases way <;> rfl
  unfold records shift
  rw [Multimap.get_map, List.any_map]
  exact congrArg (List.any (cell.get r.lhs)) (funext hby)

theorem applyUnary_shift (state : Cell × Bool) (r : UnaryRule) :
    applyUnary (k + start) (k + stop) (state.map (shift k) id) r =
      (applyUnary start stop state r).map (shift k) id := by
  have hkey : (state.1.shift k).hasKey r.child = state.1.hasKey r.child := Multimap.hasKey_map ..
  rw [applyUnary_eq, applyUnary_eq, Prod.map_fst, hkey, records_shift]
  split_ifs
  · have happend : shift k (state.1.append r.lhs [r.way start stop]) =
        (state.1.shift k).append r.lhs [r.way (k + start) (k + stop)] :=
      Multimap.map_append (Way.shift k) state.1 r.lhs [r.way start stop]
    rw [Prod.map_apply, happend, id_eq]
  · rfl

theorem closeWithin_shift (rules : List UnaryRule) (passes : Nat) (cell : Cell) :
    closeWithin rules (k + start) (k + stop) passes (cell.shift k) =
      (closeWithin rules start stop passes cell).shift k := by
  induction passes generalizing cell with
  | zero => rfl
  | succ passes ih =>
    have hpass : unaryPass rules (k + start) (k + stop) (cell.shift k) =
        (unaryPass rules start stop cell).map (shift k) id := by
      unfold unaryPass
      rw [← List.foldl_hom (Prod.map (shift k) id) (applyUnary_shift k start stop)]
      rfl
    rw [closeWithin, closeWithin, hpass]
    dsimp only [Prod.map_fst, Prod.map_snd, id_eq]
    split_ifs
    · exact ih _
    · rfl

theorem close_shift (rules : List UnaryRule) (cell : Cell) :
    (cell.shift k).close rules (k + start) (k + stop) = (cell.close rules start stop).shift k :=
  closeWithin_shift k start stop rules _ cell

end Cell

theorem cuts_shift (k more pos stop : Nat) :
    cuts more (k + pos) (k + stop) = (cuts more pos stop).map (k + ·) := by
  unfold cuts
  dsimp only
  have hlength : k + stop - (k + pos) = stop - pos := by omega
  rw [hlength]
  split_ifs with hshort hlast
  · rfl
  · rw [List.map_add_range']
    congr 1
    omega
  · rw [List.map_add_range', ← Nat.add_assoc]
    congr 1
    omega

/-- The partitions of a moved stretch are moved, if the same edges inside it are derivable. -/
theorem partitions_shift {derives derives' : Nat → Nat → SymbolId → Bool} {k : Nat}
    {symbols : List Symbol} {pos stop : Nat}
    (h : ∀ s e nt, pos ≤ s → s < e → e ≤ stop → derives' (k + s) (k + e) nt = derives s e nt) :
    partitions derives' symbols (k + pos) (k + stop) =
      (partitions derives symbols pos stop).map (List.map (Edge.shift k)) := by
  induction symbols generalizing pos with
  | nil =>
    rw [partitions, partitions]
    simp only [Nat.add_left_cancel_iff]
    split_ifs <;> rfl
  | cons s rest ih =>
    cases s with
    | terminal t => rfl
    | nonTerminal nt =>
      rw [partitions_cons, partitions_cons, cuts_shift, List.flatMap_map, List.map_flatMap]
      apply List.flatMap_congr
      intro cut hcut
      have hlt := (mem_cuts.mp hcut).1
      have hle := (mem_cuts.mp hcut).2.1
      have hrest := @ih cut fun s e nt hs hse he => h s e nt (by omega) hse he
      rw [h pos cut nt le_rfl hlt (by omega), hrest]
      split_ifs
      · rw [List.map_map, List.map_map]
        rfl
      · rfl

theorem getElem?_stretch {α : Type} (as : List α) {start stop i : Nat} (h : i < stop - start) :
    (stretch as start stop)[i]? = as[start + i]? := by
  unfold stretch
  rw [List.getElem?_take_of_lt h, List.getElem?_drop]

namespace Chart

variable {g : Grammar} {tokens : List SymbolId} {start stop : Nat}

theorem lexicalCell_shift {i : Nat} (h : i < stop - start) :
    lexicalCell g tokens (start + i) = (lexicalCell g (stretch tokens start stop) i).shift start := by
  unfold lexicalCell
  rw [getElem?_stretch tokens h]
  cases tokens[start + i]? with
  | none => rfl
  | some t =>
    have hstep : ∀ (cell : Cell) (nt : SymbolId),
        (cell.shift start).append nt [.word t] = Cell.shift start (cell.append nt [.word t]) :=
      fun cell nt => (Multimap.map_append (Way.shift start) cell nt [.word t]).symm
    change (g.lexicon.get t).foldl _ (Cell.shift start ∅) = _
    exact List.foldl_hom (Cell.shift start) hstep

theorem applyBranching_shift {shorter shorter' : Rows} {k i j : Nat}
    (h : ∀ s e nt, i ≤ s → s < e → e ≤ j →
      (shorter'.cell (k + s) (k + e)).hasKey nt = (shorter.cell s e).hasKey nt)
    (cell : Cell) (r : BranchingRule) :
    applyBranching shorter' (k + i) (k + j) (cell.shift k) r =
      (applyBranching shorter i j cell r).shift k := by
  have hfound : partitions (fun s e nt => (shorter'.cell s e).hasKey nt) r.symbols (k + i) (k + j) =
      (partitions (fun s e nt => (shorter.cell s e).hasKey nt) r.symbols i j).map
        (List.map (Edge.shift k)) := partitions_shift h
  unfold applyBranching
  dsimp only
  rw [hfound]
  cases partitions (fun s e nt => (shorter.cell s e).hasKey nt) r.symbols i j with
  | nil => rfl
  | cons es found =>
    have hways : ((es :: found).map (Way.split r.index)).map (Way.shift k) =
        ((es :: found).map (List.map (Edge.shift k))).map (Way.split r.index) := by
      rw [List.map_map, List.map_map]
      rfl
    dsimp only
    rw [Cell.shift, Cell.shift, Multimap.map_append, hways]
    rfl

theorem branchingCell_shift {rules : List BranchingRule} {shorter shorter' : Rows} {k i j : Nat}
    (h : ∀ s e nt, i ≤ s → s < e → e ≤ j →
      (shorter'.cell (k + s) (k + e)).hasKey nt = (shorter.cell s e).hasKey nt) :
    branchingCell rules shorter' (k + i) (k + j) = (branchingCell rules shorter i j).shift k := by
  unfold branchingCell
  rw [← List.foldl_hom (Cell.shift k) (applyBranching_shift h)]
  rfl

theorem cell_firstRows_of_lt {unary : List UnaryRule} {branching : List BranchingRule} {n : Nat}
    (h : n < stop - start) : (firstRows g tokens unary branching n).cell start stop = ∅ := by
  have hnone : (firstRows g tokens unary branching n)[stop - start - 1]? = none := by
    rw [Array.getElem?_eq_none_iff, size_firstRows]
    omega
  unfold Rows.cell
  rw [if_pos (by omega), hnone]
  rfl

theorem openCell_shift (hstop : stop ≤ tokens.length) {i j : Nat} (hij : i < j)
    (hj : j ≤ stop - start) :
    openCell g tokens (start + i) (start + j) =
      (openCell g (stretch tokens start stop) i j).shift start := by
  have hlength : (stretch tokens start stop).length = stop - start := length_stretch hstop
  induction hn : j - i using Nat.strong_induction_on generalizing i j with
  | _ n ih =>
    unfold openCell
    by_cases hone : j = i + 1
    · rw [if_pos (by omega), if_pos hone]
      exact lexicalCell_shift (by omega)
    · rw [if_neg (by omega), if_neg hone]
      have hrows : start + j - (start + i) - 1 = j - i - 1 := by omega
      rw [hrows]
      apply branchingCell_shift
      intro s e nt hs hse he
      by_cases hshort : e - s ≤ j - i - 1
      · rw [cell_firstRows (by omega) (by omega) (by omega),
          cell_firstRows hse (by omega) hshort, ih (e - s) (by omega) hse (by omega) rfl,
          Cell.close_shift]
        exact Multimap.hasKey_map ..
      · rw [cell_firstRows_of_lt (by omega), cell_firstRows_of_lt (by omega)]

/-- The ways of a stretch in the chart of the sentence are those of its own chart, moved on. -/
theorem ways_shift (hstop : stop ≤ tokens.length) {i j : Nat} (hj : j ≤ stop - start)
    (nt : SymbolId) :
    (ofTerminals g tokens).ways (start + i) (start + j) nt =
      ((ofTerminals g (stretch tokens start stop)).ways i j nt).map (Way.shift start) := by
  have hlength : (stretch tokens start stop).length = stop - start := length_stretch hstop
  unfold ways
  by_cases hij : i < j
  · rw [cell_ofTerminals (by omega) (by omega), cell_ofTerminals hij (by omega),
      openCell_shift hstop hij hj, Cell.close_shift]
    exact Multimap.get_map ..
  · rw [cell_eq_empty (by omega), cell_eq_empty (by omega)]
    rfl

theorem treesBy_shift {c c' : Chart} (hgrammar : c.grammar = c'.grammar) {k : Nat} {e : Edge}
    {way : Way} (h : ∀ x ∈ way.children, c.trees (x.shift k) = c'.trees x) :
    c.treesBy (e.shift k) (way.shift k) = c'.treesBy e way := by
  have htree : c.treeBy (e.shift k) (way.shift k) = c'.treeBy e way := by
    funext ts
    cases way <;> simp [Way.shift, treeBy, Edge.shift, hgrammar]
  have hchildren : (way.shift k).children.map c.trees = way.children.map c'.trees := by
    cases way with
    | word t => rfl
    | split i children =>
      change (children.map (Edge.shift k)).map c.trees = children.map c'.trees
      rw [List.map_map]
      exact List.map_congr_left h
  unfold treesBy
  rw [htree, hchildren]

theorem trees_shift (hg : g.WellFormed) (hstop : stop ≤ tokens.length) {e : Edge}
    (he : e.stop ≤ stop - start) :
    (ofTerminals g tokens).trees (e.shift start) =
      (ofTerminals g (stretch tokens start stop)).trees e := by
  obtain ⟨rank, hranked⟩ := exists_ranked hg tokens
  obtain ⟨rank', hranked'⟩ := exists_ranked hg (stretch tokens start stop)
  have hlength : (stretch tokens start stop).length = stop - start := length_stretch hstop
  induction e using hranked'.induction with
  | _ e ih =>
    have hways : (ofTerminals g tokens).waysOf (e.shift start) =
        ((ofTerminals g (stretch tokens start stop)).waysOf e).map (Way.shift start) :=
      ways_shift hstop he e.category
    rw [hranked.trees_eq, hranked'.trees_eq, hways, List.flatMap_map]
    apply List.flatMap_congr
    intro way hway
    have hgrammar : (ofTerminals g tokens).grammar =
        (ofTerminals g (stretch tokens start stop)).grammar := rfl
    apply treesBy_shift hgrammar
    intro x hx
    have hbounds := bounds_of_ways_ne_nil (hranked'.waysOf_child_ne_nil hway hx)
    exact ih way hway x hx (by omega)

theorem spells_stretch {words : List String} (h : g.Spells words tokens) (start stop : Nat) :
    g.Spells (stretch words start stop) (stretch tokens start stop) := by
  rw [Grammar.spells_iff] at h ⊢
  unfold stretch
  rw [List.map_take, List.map_take, List.map_drop, List.map_drop, h]

/-- A stretch of a sentence has a chart of its own, whose ways are those of the sentence's chart
moved back to the beginning. So the derivations of the stretch and their number can be read off the
chart of any sentence around it. -/
theorem local_of_ofTokens (hloaded : g.Loaded) {words : List String} {c : Chart}
    (h : ofTokens g words = .ok c) (hle : start ≤ stop) (hstop : stop ≤ words.length) :
    ∃ c', ofTokens g (stretch words start stop) = .ok c' ∧
      (∀ i j nt, i ≤ stop - start → j ≤ stop - start →
        c.ways (start + i) (start + j) nt = (c'.ways i j nt).map (Way.shift start)) ∧
      (∀ nt, (c'.derivations nt).Yields (c.trees ⟨start, stop, nt⟩)) ∧
      ∀ nt, c'.derivationCount nt = (c.countFrom c.height ⟨start, stop, nt⟩ ∅).1 := by
  obtain ⟨tokens, hids, rfl⟩ := ofTokens_eq_ok.mp h
  have hg := hloaded.wellFormed
  rw [hids.length_eq] at hstop
  have hlength : (stretch tokens start stop).length = stop - start := length_stretch hstop
  obtain ⟨rank, hranked⟩ := exists_ranked hg tokens
  obtain ⟨rank', hranked'⟩ := exists_ranked hg (stretch tokens start stop)
  let own := ofTerminals g (stretch tokens start stop)
  have htrees : ∀ nt, own.trees ⟨0, own.length, nt⟩ =
      (ofTerminals g tokens).trees ⟨start, stop, nt⟩ := by
    intro nt
    have hshift : (⟨0, own.length, nt⟩ : Edge).shift start = ⟨start, stop, nt⟩ := by
      change (⟨start + 0, start + (stretch tokens start stop).length, nt⟩ : Edge) = _
      rw [hlength, Nat.add_zero, Nat.add_sub_cancel' hle]
    rw [← hshift]
    exact (trees_shift hg hstop hlength.le).symm
  refine ⟨own, ofTokens_eq_ok.mpr ⟨_, spells_stretch hids start stop, rfl⟩, ?_, ?_, ?_⟩
  · intro i j nt _ hj
    exact ways_shift hstop hj nt
  · intro nt
    rw [← htrees]
    exact hranked'.yields_derivations nt
  · intro nt
    rw [hranked.countFrom_eq, ← hranked.length_cursors, hranked'.derivationCount_eq_length, htrees,
      trees, List.length_map]

/-- The last two of three words have one derivation, in their own chart as in that of all three. -/
theorem local_last_two :
    ∃ c', ofTokens .bracketings ["a", "a"] = .ok c' ∧
      (ofTerminals .bracketings [0, 0, 0]).ways 1 3 0 = (c'.ways 0 2 0).map (Way.shift 1) ∧
      (ofTerminals .bracketings [0, 0, 0]).ways 1 3 0 = [.split 0 [⟨1, 2, 0⟩, ⟨2, 3, 0⟩]] ∧
        c'.derivationCount 0 = 1 := by
  have hways : (ofTerminals .bracketings [0, 0, 0]).ways 1 3 0 =
      [.split 0 [⟨1, 2, 0⟩, ⟨2, 3, 0⟩]] := by decide +kernel
  have hcount : ((ofTerminals .bracketings [0, 0, 0]).countFrom
      (ofTerminals .bracketings [0, 0, 0]).height ⟨1, 3, 0⟩ ∅).1 = 1 := by decide +kernel
  obtain ⟨c', hown, hshift, -, hcounts⟩ := local_of_ofTokens Grammar.loaded_bracketings
    ofTokens_bracketings (show 1 ≤ 3 by omega) (show 3 ≤ ["a", "a", "a"].length from le_rfl)
  exact ⟨c', hown, hshift 0 2 0 (by omega) (by omega), hways, (hcounts 0).trans hcount⟩

end Chart

end PhraseStructure
