import Mathlib.Tactic
import PhraseStructure.Proofs.Odometer
import PhraseStructure.Proofs.Recognition

/-!
# What is kept between two pulls

After a pull, the derivations stand at the cursor whose tree was pulled, or have no cursor if the
pull has found nothing. After one pull more than `k`, this is the cursor with number `k` of the
whole sentence. Whether the derivations are empty therefore tells about the last pull, and not about
the next one: right after the last tree they are not empty yet.
-/

namespace PhraseStructure

namespace Derivations

variable (d : Derivations)

theorem after_succ (n : Nat) : d.after (n + 1) = (d.after n).next.2 := by
  induction n generalizing d with
  | zero => rfl
  | succ n ih => exact ih d.next.2

theorem after_of_isEmpty {d : Derivations} (h : d.isEmpty = true) (n : Nat) : d.after n = d := by
  induction n with
  | zero => rfl
  | succ n ih => rw [after_succ, ih, next_of_isEmpty h]

theorem chart_next : d.next.2.chart = d.chart := by
  unfold next
  split
  · rfl
  · split <;> rfl

theorem cursor_next :
    d.next.2.cursor = if d.started then d.cursor.bind (Cursor.next? d.chart) else d.cursor := by
  unfold next
  cases hcursor : d.cursor with
  | none => simp [hcursor]
  | some cursor =>
    cases d.started with
    | false => rfl
    | true => cases hnext : cursor.next? d.chart <;> simp [hnext]

theorem started_next : d.next.2.started = (d.started || d.cursor.isSome) := by
  unfold next
  cases hcursor : d.cursor with
  | none => simp
  | some cursor =>
    cases hstarted : d.started with
    | false => rfl
    | true => cases hnext : cursor.next? d.chart <;> simp [hnext]

theorem next_fst : d.next.1 = d.next.2.cursor.map (Cursor.tree d.chart) := by
  unfold next
  cases hcursor : d.cursor with
  | none => simp [hcursor]
  | some cursor =>
    dsimp only
    split <;> rfl

theorem isEmpty_next : d.next.2.isEmpty = d.next.1.isNone := by
  rw [next_fst, Option.isNone_map]
  rfl

end Derivations

namespace Chart

variable {c : Chart} {rank : Edge → Nat}

theorem chart_after (nt : SymbolId) (n : Nat) : ((c.derivations nt).after n).chart = c := by
  induction n with
  | zero => rfl
  | succ n ih => rw [Derivations.after_succ, Derivations.chart_next, ih]

/-- The cursors at which the pulls leave the derivations are those of the whole sentence, one after
the other. -/
theorem Ranked.cursor_after (h : c.Ranked rank) (nt : SymbolId) (n : Nat) :
    ((c.derivations nt).after (n + 1)).cursor = (c.cursors ⟨0, c.length, nt⟩)[n]? := by
  by_cases he : c.waysOf ⟨0, c.length, nt⟩ = []
  · have hroot : c.root? nt = none := by simp [root?, he]
    have hempty : (c.derivations nt).isEmpty = true := by
      simp [derivations, Derivations.isEmpty, hroot]
    rw [Derivations.after_of_isEmpty hempty, Option.isNone_iff_eq_none.mp hempty, h.cursors_eq, he]
    rfl
  · have hroot : c.root? nt = some ⟨0, c.length, nt⟩ := by simp [root?, he]
    have hfirst := h.head?_cursors he
    suffices hstate : ((c.derivations nt).after (n + 1)).cursor =
        (c.cursors ⟨0, c.length, nt⟩)[n]? ∧
          ((c.derivations nt).after (n + 1)).started = true from hstate.1
    induction n with
    | zero =>
      rw [Derivations.after_succ, Derivations.cursor_next, Derivations.started_next,
        ← List.head?_eq_getElem?, hfirst]
      simp [Derivations.after, derivations, hroot]
    | succ n ih =>
      obtain ⟨hcursor, hstarted⟩ := ih
      rw [Derivations.after_succ, Derivations.cursor_next, Derivations.started_next, hstarted,
        if_pos rfl, hcursor, chart_after]
      refine ⟨?_, rfl⟩
      cases hn : (c.cursors ⟨0, c.length, nt⟩)[n]? with
      | none =>
        have hle := List.getElem?_eq_none_iff.mp hn
        exact (List.getElem?_eq_none_iff.mpr (Nat.le_succ_of_le hle)).symm
      | some cursor => exact (h.runs_cursors _).step_eq hn

/-- A pull finds nothing as soon as all trees have been pulled. The derivations are empty if there is
no tree at all, and else only when a pull has found nothing, one pull later. -/
theorem isEmpty_after_iff {g : Grammar} (hloaded : g.Loaded) {words : List String}
    (h : ofTokens g words = .ok c) (nt : SymbolId) (n : Nat) :
    (((c.derivations nt).after n).next.1 = none ↔ (c.trees ⟨0, c.length, nt⟩).length ≤ n) ∧
      (((c.derivations nt).after n).isEmpty = true ↔
        c.trees ⟨0, c.length, nt⟩ = [] ∨ (c.trees ⟨0, c.length, nt⟩).length < n) ∧
      ((((c.derivations nt).after n).isEmpty = true ↔ ((c.derivations nt).after n).next.1 = none) ↔
        ((c.trees ⟨0, c.length, nt⟩).length = n → n = 0)) := by
  obtain ⟨tokens, -, rfl⟩ := ofTokens_eq_ok.mp h
  obtain ⟨rank, hranked⟩ := exists_ranked hloaded.wellFormed tokens
  generalize ofTerminals g tokens = c at hranked
  have hnext : ((c.derivations nt).after n).next.1 = none ↔
      (c.trees ⟨0, c.length, nt⟩).length ≤ n := by
    rw [hranked.yields_derivations nt n, List.getElem?_eq_none_iff]
  have hempty : ((c.derivations nt).after n).isEmpty = true ↔
      c.trees ⟨0, c.length, nt⟩ = [] ∨ (c.trees ⟨0, c.length, nt⟩).length < n := by
    cases n with
    | zero =>
      have hways := hranked.trees_ne_nil_iff (e := ⟨0, c.length, nt⟩)
      rw [← isEmpty_derivations_iff] at hways
      simpa [Derivations.after] using hways.not.symm
    | succ n =>
      rw [Derivations.after_succ, Derivations.isEmpty_next, Option.isNone_iff_eq_none,
        hranked.yields_derivations nt n, List.getElem?_eq_none_iff, Nat.lt_succ_iff]
      constructor
      · exact Or.inr
      · rintro (hnil | hle)
        · rw [hnil]
          exact Nat.zero_le n
        · exact hle
  refine ⟨hnext, hempty, ?_⟩
  rw [hempty, hnext, ← List.length_eq_zero_iff]
  omega

/-- Three words have two trees. Two pulls find them, and the third one finds nothing. -/
theorem isEmpty_after_bracketings :
    (((ofTerminals .bracketings [0, 0, 0]).derivations 0).after 2).next.1 = none ∧
      (((ofTerminals .bracketings [0, 0, 0]).derivations 0).after 3).isEmpty = true := by
  have hlength : ((ofTerminals .bracketings [0, 0, 0]).trees ⟨0, 3, 0⟩).length = 2 := by
    decide +kernel
  have hpulls := isEmpty_after_iff Grammar.loaded_bracketings ofTokens_bracketings 0
  constructor
  · exact (hpulls 2).1.mpr hlength.le
  · refine (hpulls 3).2.1.mpr (Or.inr ?_)
    change ((ofTerminals .bracketings [0, 0, 0]).trees ⟨0, 3, 0⟩).length < 3
    omega

/-- That the derivations are not empty does not mean that there is a further tree: after both trees
of three words they are not empty. -/
theorem not_isEmpty_after_last :
    ¬∀ (g : Grammar) (words : List String) (c : Chart), g.Loaded → ofTokens g words = .ok c →
      ∀ nt n, ((c.derivations nt).after n).isEmpty = true ↔
        ((c.derivations nt).after n).next.1 = none := by
  intro h
  have hiff := h .bracketings _ _ Grammar.loaded_bracketings ofTokens_bracketings 0 2
  have hempty : (((ofTerminals .bracketings [0, 0, 0]).derivations 0).after 2).isEmpty = false := by
    decide +kernel
  have hnext : (((ofTerminals .bracketings [0, 0, 0]).derivations 0).after
      2).next.1.isNone = true := by decide +kernel
  rw [hempty, ← Option.isNone_iff_eq_none, hnext] at hiff
  cases hiff.mpr rfl

end Chart

end PhraseStructure
