import Mathlib.Tactic
import PhraseStructure.Chunk
import PhraseStructure.ParseTree.Bracketed

/-!
# Which subtrees are chunks

Chunks are collected from below: a node is one if it carries the label and no chunk has been found
among its children. Since a tree with the label anywhere in it has a chunk, this is the same as to
carry the label with no other node below that does, and the chunks come in the order of these nodes
in the tree, each node before those below it.
-/

namespace PhraseStructure.ParseTree

/-- The subtrees below the root, in the order of all subtrees. -/
def descendants (t : ParseTree) : List ParseTree := t.children.flatMap subtrees

/-- A tree that carries a label which no tree below it carries. -/
def IsMinimal (label : String) (t : ParseTree) : Prop :=
  t.label = label ∧ ∀ s ∈ t.descendants, s.label ≠ label

instance (label : String) : DecidablePred (IsMinimal label) :=
  fun _ => inferInstanceAs (Decidable (_ ∧ _))

variable {label : String} {s t : ParseTree}

theorem subtrees_eq_cons (t : ParseTree) : t.subtrees = t :: t.descendants := by
  cases t with
  | leaf l word => rfl
  | node l ts => rw [subtrees, subtreesAll_eq_flatMap, descendants, children]

theorem self_mem_subtrees (t : ParseTree) : t ∈ t.subtrees := by
  rw [subtrees_eq_cons]
  exact List.mem_cons_self

theorem mem_subtrees_node {l : String} {ts : List ParseTree} :
    s ∈ (node l ts).subtrees ↔ s = node l ts ∨ ∃ t ∈ ts, s ∈ t.subtrees := by
  rw [subtrees_eq_cons, List.mem_cons, descendants, children, List.mem_flatMap]

theorem subtrees_subset (h : s ∈ t.subtrees) : s.subtrees ⊆ t.subtrees := by
  induction t with
  | leaf l word =>
    obtain rfl := List.mem_singleton.mp h
    exact List.Subset.refl _
  | node l ts ih =>
    rcases mem_subtrees_node.mp h with rfl | ⟨t, ht, hs⟩
    · exact List.Subset.refl _
    · intro r hr
      exact mem_subtrees_node.mpr (Or.inr ⟨t, ht, ih t ht hs hr⟩)

theorem words_subset (h : s ∈ t.subtrees) : s.words ⊆ t.words := by
  induction t with
  | leaf l word =>
    obtain rfl := List.mem_singleton.mp h
    exact List.Subset.refl _
  | node l ts ih =>
    rcases mem_subtrees_node.mp h with rfl | ⟨t, ht, hs⟩
    · exact List.Subset.refl _
    · intro word hword
      rw [words_node]
      exact List.mem_flatMap.mpr ⟨t, ht, ih t ht hs hword⟩

theorem hasLabel_eq_false_iff :
    t.hasLabel label = false ↔ ∀ s ∈ t.subtrees, s.label ≠ label := by
  induction t with
  | leaf l word => simp [hasLabel, subtrees, ParseTree.label]
  | node l ts ih =>
    rw [hasLabel, Bool.or_eq_false_iff, beq_eq_false_iff_ne, hasLabelAny_eq_any, List.any_eq_false,
      subtrees_eq_cons, List.forall_mem_cons, descendants, List.forall_mem_flatMap]
    simp only [Bool.not_eq_true]
    exact and_congr Iff.rfl (forall₂_congr ih)

theorem chunks_node (l : String) (ts : List ParseTree) :
    (node l ts).chunks label =
      if l = label ∧ ts.flatMap (chunks label) = [] then [node l ts]
      else ts.flatMap (chunks label) := by
  rw [chunks, chunksAll_eq_flatMap]
  simp only [Bool.and_eq_true, decide_eq_true_eq, List.isEmpty_iff]

theorem chunks_eq_nil_iff : t.chunks label = [] ↔ ∀ s ∈ t.subtrees, s.label ≠ label := by
  induction t with
  | leaf l word => simp [chunks, subtrees, ParseTree.label]
  | node l ts ih =>
    have hbelow : ts.flatMap (chunks label) = [] ↔
        ∀ s ∈ (node l ts).descendants, s.label ≠ label := by
      rw [List.flatMap_eq_nil_iff, descendants, List.forall_mem_flatMap]
      exact forall₂_congr ih
    rw [chunks_node, subtrees_eq_cons, List.forall_mem_cons, ← hbelow]
    split_ifs with h
    · simp [h.1, ParseTree.label]
    · constructor
      · intro hnil
        exact ⟨fun hl => h ⟨hl, hnil⟩, hnil⟩
      · intro hnone
        exact hnone.2

theorem isMinimal_node (l : String) (ts : List ParseTree) :
    IsMinimal label (node l ts) ↔ l = label ∧ ts.flatMap (chunks label) = [] := by
  apply and_congr Iff.rfl
  rw [List.flatMap_eq_nil_iff, descendants, List.forall_mem_flatMap]
  exact forall₂_congr fun _ _ => chunks_eq_nil_iff.symm

theorem chunks_eq_filter (label : String) (t : ParseTree) :
    t.chunks label = t.subtrees.filter (IsMinimal label) := by
  induction t with
  | leaf l word =>
    have hminimal : IsMinimal label (leaf l word) ↔ l = label := by
      simp [IsMinimal, descendants, children, ParseTree.label]
    simp only [chunks, subtrees, List.filter_cons, List.filter_nil, hminimal, decide_eq_true_eq]
  | node l ts ih =>
    have hbelow : ts.flatMap (chunks label) =
        (node l ts).descendants.filter (IsMinimal label) := by
      rw [descendants, List.filter_flatMap]
      exact List.flatMap_congr ih
    rw [chunks_node, subtrees_eq_cons, List.filter_cons, ← hbelow]
    simp only [decide_eq_true_eq, isMinimal_node]
    split_ifs with h
    · rw [h.2]
    · rfl

theorem mem_chunks : s ∈ t.chunks label ↔ s ∈ t.subtrees ∧ IsMinimal label s := by
  rw [chunks_eq_filter, List.mem_filter, decide_eq_true_eq]

theorem exists_chunk (hs : s ∈ t.subtrees) (hlabel : s.label = label) :
    ∃ c ∈ t.chunks label, c ∈ s.subtrees := by
  have hne : s.chunks label ≠ [] := by
    intro hnil
    exact chunks_eq_nil_iff.mp hnil s s.self_mem_subtrees hlabel
  obtain ⟨c, hc⟩ := List.exists_mem_of_ne_nil _ hne
  have hbelow : c ∈ s.subtrees := (mem_chunks.mp hc).1
  have hminimal : IsMinimal label c := (mem_chunks.mp hc).2
  exact ⟨c, mem_chunks.mpr ⟨subtrees_subset hs hbelow, hminimal⟩, hbelow⟩

/-- The chunks are the minimal nodes with the label, in the order of the tree. None of them is below
another, and each node with the label has one of them at or below it. -/
theorem chunks_exact (label : String) (t : ParseTree) :
    t.chunks label = t.subtrees.filter
        (fun s => s.label = label ∧ ∀ d ∈ s.descendants, d.label ≠ label) ∧
      (∀ c ∈ t.chunks label, ∀ c' ∈ t.chunks label, c' ∉ c.descendants) ∧
      (∀ s ∈ t.subtrees, s.label = label → ∃ c ∈ t.chunks label, c ∈ s.subtrees) ∧
      (t.chunks label = [] ↔ t.hasLabel label = false) := by
  refine ⟨chunks_eq_filter label t, ?_, fun s => exists_chunk, ?_⟩
  · intro c hc c' hc' hbelow
    have hminimal : IsMinimal label c := (mem_chunks.mp hc).2
    have hlabel : c'.label = label := (mem_chunks.mp hc').2.1
    exact hminimal.2 c' hbelow hlabel
  · rw [chunks_eq_nil_iff, hasLabel_eq_false_iff]

end PhraseStructure.ParseTree
