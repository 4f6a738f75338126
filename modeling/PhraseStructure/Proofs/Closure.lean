import Mathlib.Tactic
import PhraseStructure.Chart.Closure

/-!
# What the unary closure of a cell holds

The closure keeps what the cell had, and adds a way for each unary rule whose child is there in the
end. A pass that adds something lowers the number of rules that are not recorded, so that the passes
allowed are enough for one that adds nothing.
-/

namespace PhraseStructure

namespace Multimap

variable {κ ν α : Type} [DecidableEq κ]

/-- Each key has values. -/
def Full (m : Multimap κ ν) : Prop := ∀ key, m.hasKey key = true → m.get key ≠ []

theorem hasKey_of_get_ne_nil {m : Multimap κ ν} {key : κ} (h : m.get key ≠ []) :
    m.hasKey key = true := by
  unfold get at h
  unfold hasKey
  cases hkey : m.get? key with
  | none => simp [hkey] at h
  | some values => rfl

theorem Full.hasKey_iff {m : Multimap κ ν} (hm : m.Full) {key : κ} :
    m.hasKey key = true ↔ m.get key ≠ [] :=
  ⟨hm key, hasKey_of_get_ne_nil⟩

theorem full_empty : (∅ : Multimap κ ν).Full := by
  intro key h
  simp at h

theorem Full.append {m : Multimap κ ν} (hm : m.Full) (key : κ) {values : List ν}
    (hne : values ≠ []) : (m.append key values).Full := by
  intro other h
  rw [get_append]
  split_ifs with hkey
  · exact List.append_ne_nil_of_right_ne_nil _ hne
  · rw [hasKey_append] at h
    exact hm other (by simpa [hkey] using h)

theorem get_foldl {f : Multimap κ ν → α → Multimap κ ν} {values : α → κ → List ν}
    (hstep : ∀ m a key, (f m a).get key = m.get key ++ values a key) (as : List α)
    (m : Multimap κ ν) (key : κ) :
    (as.foldl f m).get key = m.get key ++ as.flatMap (values · key) := by
  induction as generalizing m with
  | nil => simp
  | cons a as ih => rw [List.foldl_cons, ih, hstep, List.flatMap_cons, List.append_assoc]

theorem Full.foldl {f : Multimap κ ν → α → Multimap κ ν} (hstep : ∀ m a, m.Full → (f m a).Full)
    (as : List α) {m : Multimap κ ν} (hm : m.Full) : (as.foldl f m).Full := by
  induction as generalizing m with
  | nil => exact hm
  | cons a as ih => exact ih (hstep m a hm)

end Multimap

def UnaryRule.way (start stop : Nat) (r : UnaryRule) : Way :=
  .split r.index [⟨start, stop, r.child⟩]

namespace Cell

variable {rules : List UnaryRule} {start stop : Nat} {base cell : Cell}

def records (cell : Cell) (r : UnaryRule) : Bool := (cell.get r.lhs).any (·.isBy r.index)

theorem applyUnary_eq (state : Cell × Bool) (r : UnaryRule) :
    applyUnary start stop state r =
      if state.1.hasKey r.child = true ∧ records state.1 r = false then
        (state.1.append r.lhs [r.way start stop], true)
      else state := by
  unfold applyUnary records UnaryRule.way
  split_ifs <;> simp_all

/-- A cell that extends another by ways of unary rules whose children it has. Of each non-terminal,
each alternative is added at most once. -/
structure Extends (rules : List UnaryRule) (start stop : Nat) (base cell : Cell) : Prop where
  full : cell.Full
  added (nt : SymbolId) : ∃ added : List UnaryRule,
    cell.get nt = base.get nt ++ added.map (UnaryRule.way start stop) ∧
      (added.map UnaryRule.index).Nodup ∧
        ∀ r ∈ added, r ∈ rules ∧ r.lhs = nt ∧ cell.hasKey r.child = true

theorem Extends.refl (hbase : base.Full) : Extends rules start stop base base where
  full := hbase
  added _ := ⟨[], by simp, List.nodup_nil, by simp⟩

theorem Extends.append (h : Extends rules start stop base cell) {r : UnaryRule} (hr : r ∈ rules)
    (hchild : cell.hasKey r.child = true) (hnew : records cell r = false) :
    Extends rules start stop base (cell.append r.lhs [r.way start stop]) where
  full := h.full.append _ (List.cons_ne_nil _ _)
  added nt := by
    have hkeys : ∀ k, cell.hasKey k = true →
        (cell.append r.lhs [r.way start stop]).hasKey k = true := by
      intro k hk
      rw [Multimap.hasKey_append, hk, Bool.or_true]
    obtain ⟨added, hget, hnodup, hadded⟩ := h.added nt
    rw [Multimap.get_append]
    split_ifs with hlhs
    · subst hlhs
      refine ⟨added ++ [r], by simp [hget], ?_, ?_⟩
      · rw [List.map_append, List.nodup_append]
        refine ⟨hnodup, List.nodup_singleton _, ?_⟩
        rintro a ha b hb rfl
        obtain ⟨r', hr', hindex⟩ := List.mem_map.mp ha
        have hb : a = r.index := by simpa using hb
        have hrecords : records cell r = true := by
          refine List.any_eq_true.mpr ⟨r'.way start stop, ?_, ?_⟩
          · rw [hget]
            exact List.mem_append_right _ (List.mem_map_of_mem hr')
          · simp [UnaryRule.way, Way.isBy, hindex, hb]
        rw [hnew] at hrecords
        cases hrecords
      · intro r' hr'
        rcases List.mem_append.mp hr' with hr' | hr'
        · obtain ⟨hmem, hlhs, hkey⟩ := hadded r' hr'
          exact ⟨hmem, hlhs, hkeys _ hkey⟩
        · obtain rfl := List.mem_singleton.mp hr'
          exact ⟨hr, rfl, hkeys _ hchild⟩
    · exact ⟨added, hget, hnodup, fun r' hr' =>
        ⟨(hadded r' hr').1, (hadded r' hr').2.1, hkeys _ (hadded r' hr').2.2⟩⟩

theorem Extends.applyUnary {state : Cell × Bool} (h : Extends rules start stop base state.1)
    {r : UnaryRule} (hr : r ∈ rules) :
    Extends rules start stop base (applyUnary start stop state r).1 := by
  rw [applyUnary_eq]
  split_ifs with hready
  · exact h.append hr hready.1 hready.2
  · exact h

theorem Extends.foldl_applyUnary {rs : List UnaryRule} (hrs : rs ⊆ rules) {state : Cell × Bool}
    (h : Extends rules start stop base state.1) :
    Extends rules start stop base (rs.foldl (Cell.applyUnary start stop) state).1 := by
  induction rs generalizing state with
  | nil => exact h
  | cons r rs ih =>
    obtain ⟨hr, hrs⟩ := List.cons_subset.mp hrs
    exact ih hrs (h.applyUnary hr)

/-- A cell in which each rule whose child is there is recorded. -/
def Closed (rules : List UnaryRule) (cell : Cell) : Prop :=
  ∀ r ∈ rules, cell.hasKey r.child = true → records cell r = true

/-- The number of rules that are not recorded. -/
def pending (rules : List UnaryRule) (cell : Cell) : Nat := rules.countP fun r => !records cell r

theorem pending_append_lt {r : UnaryRule} (hr : r ∈ rules) (hnew : records cell r = false) :
    pending rules (cell.append r.lhs [r.way start stop]) < pending rules cell := by
  let next := cell.append r.lhs [r.way start stop]
  have hold : ∀ r', records cell r' = true → records next r' = true := by
    intro r' h
    unfold records at h ⊢
    rw [Multimap.get_append]
    split_ifs with hlhs
    · rw [List.any_append, hlhs, h, Bool.true_or]
    · exact h
  have hrecords : records next r = true := by
    unfold records
    rw [Multimap.get_append, if_pos rfl]
    simp [UnaryRule.way, Way.isBy]
  calc pending rules next
      = (rules.filter fun r' => !records cell r').countP fun r' => !records next r' := by
        rw [List.countP_filter]
        apply List.countP_congr
        intro r' _
        have := hold r'
        cases h : records cell r' <;> simp_all
    _ < (rules.filter fun r' => !records cell r').length := by
        rw [List.countP_lt_length_iff]
        exact ⟨r, by simp [hr, hnew], by simp [hrecords]⟩
    _ = pending rules cell := List.countP_eq_length_filter.symm

theorem foldl_applyUnary_true (rs : List UnaryRule) (cell : Cell) :
    (rs.foldl (applyUnary start stop) (cell, true)).2 = true := by
  induction rs generalizing cell with
  | nil => rfl
  | cons r rs ih =>
    rw [List.foldl_cons, applyUnary_eq]
    split_ifs <;> exact ih _

theorem foldl_applyUnary_of_false {rs : List UnaryRule} {state : Cell × Bool}
    (h : (rs.foldl (applyUnary start stop) state).2 = false) :
    (rs.foldl (applyUnary start stop) state).1 = state.1 ∧ Closed rs state.1 := by
  induction rs generalizing state with
  | nil => exact ⟨rfl, by simp [Closed]⟩
  | cons r rs ih =>
    rw [List.foldl_cons] at h ⊢
    rw [applyUnary_eq] at h ⊢
    split_ifs at h ⊢ with hready
    · rw [foldl_applyUnary_true] at h
      cases h
    · obtain ⟨hcell, hclosed⟩ := ih h
      refine ⟨hcell, List.forall_mem_cons.mpr ⟨?_, hclosed⟩⟩
      intro hchild
      by_contra hnew
      exact hready ⟨hchild, by simpa using hnew⟩

/-- A run over rules that adds something lowers the number of rules that are not recorded. -/
theorem pending_foldl_applyUnary {rs : List UnaryRule} (hrs : rs ⊆ rules) {state : Cell × Bool} :
    pending rules (rs.foldl (applyUnary start stop) state).1 ≤ pending rules state.1 ∧
      ((rs.foldl (applyUnary start stop) state).2 = true → state.2 = true ∨
        pending rules (rs.foldl (applyUnary start stop) state).1 < pending rules state.1) := by
  induction rs generalizing state with
  | nil => exact ⟨le_rfl, Or.inl⟩
  | cons r rs ih =>
    obtain ⟨hr, hrs⟩ := List.cons_subset.mp hrs
    rw [List.foldl_cons, applyUnary_eq]
    split_ifs with hready
    · have hlt : pending rules (state.1.append r.lhs [r.way start stop]) < pending rules state.1 :=
        pending_append_lt hr hready.2
      have hle : pending rules (rs.foldl (applyUnary start stop)
          (state.1.append r.lhs [r.way start stop], true)).1 ≤
            pending rules (state.1.append r.lhs [r.way start stop]) := (ih hrs).1
      exact ⟨(hle.trans_lt hlt).le, fun _ => Or.inr (hle.trans_lt hlt)⟩
    · exact ih hrs

theorem closeWithin_spec {passes : Nat} (h : Extends rules start stop base cell)
    (hpasses : pending rules cell < passes) :
    Extends rules start stop base (closeWithin rules start stop passes cell) ∧
      Closed rules (closeWithin rules start stop passes cell) := by
  induction passes generalizing cell with
  | zero => exact absurd hpasses (Nat.not_lt_zero _)
  | succ passes ih =>
    have hnext : Extends rules start stop base (unaryPass rules start stop cell).1 :=
      Extends.foldl_applyUnary (List.Subset.refl _) h
    rw [closeWithin]
    split_ifs with hadded
    · apply ih hnext
      rcases (pending_foldl_applyUnary (List.Subset.refl _)).2 hadded with hfalse | hlt
      · cases hfalse
      · exact (Nat.lt_of_lt_of_le hlt (Nat.le_of_lt_succ hpasses))
    · have hfalse : (unaryPass rules start stop cell).2 = false := by simpa using hadded
      obtain ⟨hsame, hclosed⟩ := foldl_applyUnary_of_false hfalse
      refine ⟨hnext, ?_⟩
      unfold unaryPass
      rw [hsame]
      exact hclosed

theorem extends_close (rules : List UnaryRule) (start stop : Nat) (hbase : base.Full) :
    Extends rules start stop base (base.close rules start stop) ∧
      Closed rules (base.close rules start stop) :=
  closeWithin_spec (.refl hbase) (Nat.lt_succ_of_le List.countP_le_length)

/-- No unary rule is recorded in a cell yet. -/
def Fresh (rules : List UnaryRule) (cell : Cell) : Prop := ∀ r ∈ rules, records cell r = false

/-- Rules are told apart by their left-hand sides and the indices of their alternatives. -/
def Distinct (rules : List UnaryRule) : Prop :=
  ∀ r ∈ rules, ∀ r' ∈ rules, r.lhs = r'.lhs → r.index = r'.index → r = r'

/-- Of a non-terminal, the closure appends a way by each rule whose child is there in the end. -/
theorem exists_get_close (start stop : Nat) (hrules : Distinct rules) (hbase : base.Full)
    (hfresh : Fresh rules base) (nt : SymbolId) : ∃ added : List UnaryRule,
      (base.close rules start stop).get nt =
          base.get nt ++ added.map (UnaryRule.way start stop) ∧
        (added.map UnaryRule.index).Nodup ∧ ∀ r, r ∈ added ↔
          r ∈ rules ∧ r.lhs = nt ∧ (base.close rules start stop).hasKey r.child = true := by
  obtain ⟨hextends, hclosed⟩ := extends_close rules start stop hbase
  obtain ⟨added, hget, hindices, hadded⟩ := hextends.added nt
  refine ⟨added, hget, hindices, fun r => ⟨hadded r, ?_⟩⟩
  rintro ⟨hr, rfl, hkey⟩
  obtain ⟨way, hway, hby⟩ := List.any_eq_true.mp (hclosed r hr hkey)
  rw [hget] at hway
  rcases List.mem_append.mp hway with hway | hway
  · have hold : records base r = true := List.any_eq_true.mpr ⟨way, hway, hby⟩
    rw [hfresh r hr] at hold
    cases hold
  · obtain ⟨r', hr', rfl⟩ := List.mem_map.mp hway
    obtain ⟨hmem, hlhs, -⟩ := hadded r' hr'
    have hindex : r'.index = r.index := by simpa [UnaryRule.way, Way.isBy] using hby
    obtain rfl := hrules r' hmem r hr hlhs hindex
    exact hr'

theorem mem_get_close (hrules : Distinct rules) (hbase : base.Full) (hfresh : Fresh rules base)
    {nt : SymbolId} {way : Way} :
    way ∈ (base.close rules start stop).get nt ↔ way ∈ base.get nt ∨
      ∃ r ∈ rules, r.lhs = nt ∧ (base.close rules start stop).hasKey r.child = true ∧
        way = r.way start stop := by
  obtain ⟨added, hget, -, hadded⟩ := exists_get_close start stop hrules hbase hfresh nt
  rw [hget, List.mem_append, List.mem_map]
  simp only [hadded, and_assoc, eq_comm]

theorem nodup_get_close (hbase : base.Full) (hfresh : Fresh rules base) {nt : SymbolId}
    (hnodup : (base.get nt).Nodup) : ((base.close rules start stop).get nt).Nodup := by
  obtain ⟨added, hget, hindices, hadded⟩ := (extends_close rules start stop hbase).1.added nt
  rw [hget, List.nodup_append]
  refine ⟨hnodup, ?_, ?_⟩
  · apply hindices.of_map.map_on
    intro r hr r' hr' hway
    exact List.inj_on_of_nodup_map hindices hr hr' (Way.split.inj hway).1
  · rintro way hway way' hway' rfl
    obtain ⟨r, hr, rfl⟩ := List.mem_map.mp hway'
    obtain ⟨hmem, rfl, -⟩ := hadded r hr
    have hold : records base r = true :=
      List.any_eq_true.mpr ⟨_, hway, by simp [UnaryRule.way, Way.isBy]⟩
    rw [hfresh r hmem] at hold
    cases hold

end Cell

end PhraseStructure
