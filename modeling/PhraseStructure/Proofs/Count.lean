import Mathlib.Tactic
import PhraseStructure.Chart.Derivations
import PhraseStructure.Proofs.Enumeration

/-!
# What is counted

The exact count of an edge is the number of its cursors. The count with a memo is the exact count up
to the largest count: each edge in the memo has its count there, and capping the parts of a sum or
of a product does not change what the whole is capped to.
-/

namespace PhraseStructure

theorem cappedAdd_min (m n : Nat) :
    cappedAdd (min m countLimit) (min n countLimit) = min (m + n) countLimit := by
  unfold cappedAdd
  omega

theorem cappedMul_min (m n : Nat) :
    cappedMul (min m countLimit) (min n countLimit) = min (m * n) countLimit := by
  have hlimit : 0 < countLimit := by decide
  unfold cappedMul
  rcases Nat.eq_zero_or_pos m with rfl | hm
  · simp
  rcases Nat.eq_zero_or_pos n with rfl | hn
  · simp
  rcases le_total m countLimit with hmle | hmle
  · rcases le_total n countLimit with hnle | hnle
    · rw [min_eq_left hmle, min_eq_left hnle]
    · have hle := Nat.le_mul_of_pos_left n hm
      have hle' := Nat.le_mul_of_pos_left countLimit hm
      rw [min_eq_left hmle, min_eq_right hnle, min_eq_right hle', min_eq_right (hnle.trans hle)]
  · have hle := Nat.le_mul_of_pos_right m hn
    have hpos : 0 < min n countLimit := lt_min hn hlimit
    have hle' := Nat.le_mul_of_pos_right countLimit hpos
    rw [min_eq_right hmle, min_eq_right hle', min_eq_right (hmle.trans hle)]

namespace Chart

variable {c : Chart} {rank : Edge → Nat}

/-- The number of derivations of an edge with trees of depth `height` at most. -/
def exactCount (c : Chart) : (height : Nat) → Edge → Nat
  | 0, _ => 0
  | height + 1, e =>
    ((c.waysOf e).map fun way => (way.children.map (c.exactCount height)).prod).sum

theorem sum_ways_congr {value value' : Edge → Nat} {e : Edge}
    (h : ∀ way ∈ c.waysOf e, ∀ x ∈ way.children, value x = value' x) :
    ((c.waysOf e).map fun way => (way.children.map value).prod).sum =
      ((c.waysOf e).map fun way => (way.children.map value').prod).sum :=
  congrArg List.sum (List.map_congr_left fun way hway =>
    congrArg List.prod (List.map_congr_left (h way hway)))

theorem descends_exactCount : c.Descends c.exactCount := by
  intro m n e h
  rw [exactCount, exactCount]
  exact sum_ways_congr h

theorem Ranked.exactCount_eq (h : c.Ranked rank) (e : Edge) :
    c.exactCount c.height e =
      ((c.waysOf e).map fun way => (way.children.map (c.exactCount c.height)).prod).sum := by
  by_cases he : c.waysOf e = []
  · cases c.height with
    | zero => rw [he]; rfl
    | succ height => rw [exactCount, he]; rfl
  · rw [h.height_succ descends_exactCount he, exactCount]

theorem Ranked.length_cursors (h : c.Ranked rank) (e : Edge) :
    (c.cursors e).length = c.exactCount c.height e := by
  induction e using h.induction with
  | _ e ih =>
    have hby : ∀ p ∈ (c.waysOf e).zipIdx, (c.cursorsBy e p.1 p.2).length =
        (p.1.children.map (c.exactCount c.height)).prod := by
      intro p hp
      have hway := List.fst_mem_of_mem_zipIdx hp
      unfold cursorsBy
      rw [List.length_map, length_choices, List.map_map]
      exact congrArg List.prod (List.map_congr_left (ih p.1 hway))
    calc (c.cursors e).length
        = ((c.waysOf e).zipIdx.map fun p => (c.cursorsBy e p.1 p.2).length).sum := by
          rw [h.cursors_eq, List.length_flatMap]
      _ = ((c.waysOf e).zipIdx.map fun p => (p.1.children.map (c.exactCount c.height)).prod).sum :=
          congrArg List.sum (List.map_congr_left hby)
      _ = (((c.waysOf e).zipIdx.map Prod.fst).map fun way =>
            (way.children.map (c.exactCount c.height)).prod).sum := by rw [List.map_map]; rfl
      _ = c.exactCount c.height e := by rw [List.zipIdx_map_fst, ← h.exactCount_eq]

theorem Ranked.exactCount_ne_zero_iff (h : c.Ranked rank) {e : Edge} :
    c.exactCount c.height e ≠ 0 ↔ c.waysOf e ≠ [] := by
  rw [← h.trees_ne_nil_iff, ← h.length_cursors, trees, Ne, Ne, List.length_eq_zero_iff,
    List.map_eq_nil_iff]

def Memo.Valid (c : Chart) (memo : Memo) : Prop :=
  ∀ e n, memo[e]? = some n → n = min (c.exactCount c.height e) countLimit

theorem Memo.valid_empty : Memo.Valid c ∅ := by
  intro e n h
  simp at h

def countChild (c : Chart) (height : Nat) (state : Nat × Memo) (child : Edge) : Nat × Memo :=
  let next := c.countFrom height child state.2
  (cappedMul state.1 next.1, next.2)

def countWay (c : Chart) (height : Nat) (state : Nat × Memo) (way : Way) : Nat × Memo :=
  let next := way.children.foldl (c.countChild height) (1, state.2)
  (cappedAdd state.1 next.1, next.2)

theorem countFrom_succ (height : Nat) (e : Edge) (memo : Memo) :
    c.countFrom (height + 1) e memo =
      match memo[e]? with
      | some count => (count, memo)
      | none =>
        let next := (c.waysOf e).foldl (c.countWay height) (0, memo)
        (next.1, next.2.insert e next.1) := rfl

theorem Memo.Valid.insert {memo : Memo} (hmemo : memo.Valid c) {e : Edge} {n : Nat}
    (hn : n = min (c.exactCount c.height e) countLimit) : Memo.Valid c (memo.insert e n) := by
  intro e' n' h
  rw [Std.TreeMap.getElem?_insert] at h
  split_ifs at h with heq
  · rw [Std.LawfulEqCmp.compare_eq_iff_eq] at heq
    subst heq
    exact (Option.some.inj h).symm.trans hn
  · exact hmemo e' n' h

/-- A run whose steps carry a capped number and a valid memo does so as a whole. -/
theorem foldl_capped {α : Type} {f : Nat × Memo → α → Nat × Memo} {value : Nat → α → Nat}
    {as : List α}
    (hstep : ∀ a ∈ as, ∀ n memo, Memo.Valid c memo →
      (f (min n countLimit, memo) a).1 = min (value n a) countLimit ∧
        Memo.Valid c (f (min n countLimit, memo) a).2)
    {n : Nat} {memo : Memo} (hmemo : memo.Valid c) :
    (as.foldl f (min n countLimit, memo)).1 = min (as.foldl value n) countLimit ∧
      Memo.Valid c (as.foldl f (min n countLimit, memo)).2 := by
  induction as generalizing n memo with
  | nil => exact ⟨rfl, hmemo⟩
  | cons a as ih =>
    obtain ⟨hstep, hsteps⟩ := List.forall_mem_cons.mp hstep
    obtain ⟨hvalue, hvalid⟩ := hstep n memo hmemo
    have hstate : f (min n countLimit, memo) a =
        (min (value n a) countLimit, (f (min n countLimit, memo) a).2) := by
      rw [← hvalue]
    rw [List.foldl_cons, List.foldl_cons, hstate]
    exact ih hsteps hvalid

theorem Ranked.countFrom_spec (h : c.Ranked rank) {height : Nat} {e : Edge} {memo : Memo}
    (he : rank e < height) (hmemo : memo.Valid c) :
    (c.countFrom height e memo).1 = min (c.exactCount c.height e) countLimit ∧
      Memo.Valid c (c.countFrom height e memo).2 := by
  induction height generalizing e memo with
  | zero => exact absurd he (Nat.not_lt_zero _)
  | succ height ih =>
    -- The memo is handed from child to child and from way to way, and is valid all along.
    have hchild : ∀ way ∈ c.waysOf e, ∀ x ∈ way.children, ∀ n memo, Memo.Valid c memo →
        (c.countChild height (min n countLimit, memo) x).1 =
            min (n * c.exactCount c.height x) countLimit ∧
          Memo.Valid c (c.countChild height (min n countLimit, memo) x).2 := by
      intro way hway x hx n memo hmemo
      have hlt := h.child_lt hway hx
      obtain ⟨hcount, hvalid⟩ := ih (show rank x < height by omega) hmemo
      refine ⟨?_, hvalid⟩
      dsimp only [countChild]
      rw [hcount, cappedMul_min]
    have hway : ∀ way ∈ c.waysOf e, ∀ n memo, Memo.Valid c memo →
        (c.countWay height (min n countLimit, memo) way).1 =
            min (n + (way.children.map (c.exactCount c.height)).prod) countLimit ∧
          Memo.Valid c (c.countWay height (min n countLimit, memo) way).2 := by
      intro way hway n memo hmemo
      have hone : min 1 countLimit = 1 := by decide
      obtain ⟨hcount, hvalid⟩ := foldl_capped (hchild way hway) (n := 1) hmemo
      rw [hone] at hcount hvalid
      refine ⟨?_, hvalid⟩
      dsimp only [countWay]
      rw [hcount, List.prod_eq_foldl, List.foldl_map, cappedAdd_min]
    rw [countFrom_succ]
    cases hfound : memo[e]? with
    | some n => exact ⟨hmemo e n hfound, hmemo⟩
    | none =>
      obtain ⟨hcount, hvalid⟩ := foldl_capped hway (n := 0) hmemo
      have htotal : c.exactCount c.height e = (c.waysOf e).foldl
          (fun n way => n + (way.children.map (c.exactCount c.height)).prod) 0 := by
        rw [h.exactCount_eq, List.sum_eq_foldl, List.foldl_map]
      rw [← htotal] at hcount
      exact ⟨hcount, hvalid.insert hcount⟩

theorem Ranked.derivationCount_eq (h : c.Ranked rank) (nt : SymbolId) :
    c.derivationCount nt = min (c.exactCount c.height ⟨0, c.length, nt⟩) countLimit := by
  unfold derivationCount
  by_cases he : c.waysOf ⟨0, c.length, nt⟩ = []
  · have hroot : c.root? nt = none := by simp [root?, he]
    rw [hroot, h.exactCount_eq, he]
    rfl
  · have hroot : c.root? nt = some ⟨0, c.length, nt⟩ := by simp [root?, he]
    rw [hroot]
    exact (h.countFrom_spec (h.lt_height he) Memo.valid_empty).1

theorem Ranked.derivationCount_eq_length (h : c.Ranked rank) (nt : SymbolId) :
    c.derivationCount nt = min (c.trees ⟨0, c.length, nt⟩).length countLimit := by
  rw [h.derivationCount_eq, trees, List.length_map, h.length_cursors]

/-- The number of derivations of each edge in terms of those of others: a sum over its ways of the
product over their children, without a limit and without a memo. -/
def Counts (c : Chart) (count : Edge → Nat) : Prop :=
  ∀ e, count e = ((c.waysOf e).map fun way => (way.children.map count).prod).sum

theorem Ranked.counts_unique (h : c.Ranked rank) {count other : Edge → Nat}
    (hcount : c.Counts count) (hother : c.Counts other) : other = count := by
  funext e
  induction e using h.induction with
  | _ e ih =>
    rw [hcount e, hother e]
    exact sum_ways_congr ih

theorem Ranked.countFrom_eq (h : c.Ranked rank) (e : Edge) :
    (c.countFrom c.height e ∅).1 = min (c.exactCount c.height e) countLimit := by
  by_cases he : c.waysOf e = []
  · rw [h.exactCount_eq, he]
    cases c.height with
    | zero => rfl
    | succ height => simp [countFrom_succ, he]
  · exact (h.countFrom_spec (h.lt_height he) Memo.valid_empty).1

/-- The number of trees that are pulled from a chart is the exact count of the whole sentence, and
the count is this number up to the limit. -/
theorem counting_agrees {g : Grammar} (hloaded : g.Loaded) {words : List String} {c : Chart}
    (h : ofTokens g words = .ok c) :
    ∃ count, c.Counts count ∧ (∀ other, c.Counts other → other = count) ∧
      (∀ e, (c.countFrom c.height e ∅).1 = min (count e) countLimit) ∧
        ∀ nt, ∃ ts, (c.derivations nt).Yields ts ∧ ts.length = count ⟨0, c.length, nt⟩ ∧
          c.derivationCount nt = min ts.length countLimit := by
  obtain ⟨tokens, -, rfl⟩ := ofTokens_eq_ok.mp h
  obtain ⟨rank, hranked⟩ := exists_ranked hloaded.wellFormed tokens
  have hcounts : (ofTerminals g tokens).Counts
      ((ofTerminals g tokens).exactCount (ofTerminals g tokens).height) := hranked.exactCount_eq
  refine ⟨_, hcounts, fun other => hranked.counts_unique hcounts, hranked.countFrom_eq, ?_⟩
  intro nt
  have hlength : ((ofTerminals g tokens).trees ⟨0, (ofTerminals g tokens).length, nt⟩).length =
      (ofTerminals g tokens).exactCount (ofTerminals g tokens).height
        ⟨0, (ofTerminals g tokens).length, nt⟩ := by
    rw [trees, List.length_map, hranked.length_cursors]
  refine ⟨_, hranked.yields_derivations nt, hlength, ?_⟩
  rw [hlength, hranked.derivationCount_eq]

/-- Three words have two derivations, and both are pulled. -/
theorem counting_bracketings :
    ∃ ts, ((ofTerminals .bracketings [0, 0, 0]).derivations 0).Yields ts ∧ ts.length = 2 ∧
      (ofTerminals .bracketings [0, 0, 0]).derivationCount 0 = 2 := by
  have htwo : (ofTerminals .bracketings [0, 0, 0]).derivationCount 0 = 2 := by decide +kernel
  have hlimit : 2 < countLimit := by decide
  obtain ⟨count, -, -, -, hall⟩ :=
    counting_agrees Grammar.loaded_bracketings ofTokens_bracketings
  obtain ⟨ts, hyields, -, hcount⟩ := hall 0
  exact ⟨ts, hyields, by omega, htwo⟩

end Chart

end PhraseStructure
