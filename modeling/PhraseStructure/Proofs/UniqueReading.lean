import Mathlib.Tactic
import PhraseStructure.Proofs.Chunk

/-!
# Texts that are read in one way

A written form shows where it ends if it can be cut off from whatever text follows it, and with it
the thing that it stands for. A list of such forms is read in one way too, with a character between
any two of them and another one behind the last, when no form begins with the latter.
-/

namespace PhraseStructure

variable {α : Type}

/-- The text in front of the first `c` is the same, and so is the one behind it. -/
theorem eq_of_append_cons_eq {c : α} {text text' rest rest' : List α} (hc : c ∉ text)
    (hc' : c ∉ text') (h : text ++ c :: rest = text' ++ c :: rest') :
    text = text' ∧ rest = rest' := by
  induction text generalizing text' with
  | nil =>
    cases text' with
    | nil => exact ⟨rfl, List.tail_eq_of_cons_eq h⟩
    | cons d text' => exact absurd (List.head_eq_of_cons_eq h) (List.ne_of_not_mem_cons hc')
  | cons d text ih =>
    cases text' with
    | nil => exact absurd (List.head_eq_of_cons_eq h).symm (List.ne_of_not_mem_cons hc)
    | cons d' text' =>
      obtain ⟨rfl, hmore⟩ := List.cons.inj h
      obtain ⟨rfl, hrest⟩ := ih (List.not_mem_of_not_mem_cons hc)
        (List.not_mem_of_not_mem_cons hc') hmore
      exact ⟨rfl, hrest⟩

theorem intercalate_map_cons (separator : Char) (write : α → List Char) (a : α) (as : List α) :
    [separator].intercalate ((a :: as).map write) =
      write a ++ as.flatMap (separator :: write ·) := by
  induction as generalizing a with
  | nil => simp
  | cons b as ih =>
    rw [List.map_cons, List.map_cons, List.intercalate_cons_cons, ← List.map_cons, ih]
    simp

/-- The written form of `a` is not that of another thing with the property `p`, and it ends in the
same place, whatever text follows. -/
def Delimited (p : α → Prop) (write : α → List Char) (a : α) : Prop :=
  ∀ b, p b → ∀ rest rest', write a ++ rest = write b ++ rest' → a = b ∧ rest = rest'

namespace Delimited

variable {p : α → Prop} {write : α → List Char} {separator stop : Char} {as bs : List α}
  {rest rest' : List Char}

theorem flatMap (has : ∀ a ∈ as, Delimited p write a) (hbs : ∀ b ∈ bs, p b)
    (hstop : separator ≠ stop)
    (h : as.flatMap (separator :: write ·) ++ stop :: rest =
      bs.flatMap (separator :: write ·) ++ stop :: rest') : as = bs ∧ rest = rest' := by
  induction as generalizing bs with
  | nil =>
    cases bs with
    | nil => exact ⟨rfl, List.tail_eq_of_cons_eq h⟩
    | cons b bs => exact absurd (List.head_eq_of_cons_eq h).symm hstop
  | cons a as ih =>
    cases bs with
    | nil => exact absurd (List.head_eq_of_cons_eq h) hstop
    | cons b bs =>
      obtain ⟨ha, hasRest⟩ := List.forall_mem_cons.mp has
      obtain ⟨hb, hbsRest⟩ := List.forall_mem_cons.mp hbs
      simp only [List.flatMap_cons, List.cons_append, List.append_assoc] at h
      obtain ⟨rfl, hmore⟩ := ha b hb _ _ (List.tail_eq_of_cons_eq h)
      obtain ⟨rfl, hrest⟩ := ih hasRest hbsRest hmore
      exact ⟨rfl, hrest⟩

theorem intercalate (has : ∀ a ∈ as, Delimited p write a) (hbs : ∀ b ∈ bs, p b)
    (hstop : separator ≠ stop) {first : Char} (hfirst : first ≠ stop)
    (hwrite : ∀ a, ∃ more, write a = first :: more)
    (h : [separator].intercalate (as.map write) ++ stop :: rest =
      [separator].intercalate (bs.map write) ++ stop :: rest') : as = bs ∧ rest = rest' := by
  cases as with
  | nil =>
    cases bs with
    | nil => exact ⟨rfl, List.tail_eq_of_cons_eq h⟩
    | cons b bs =>
      obtain ⟨more, hb⟩ := hwrite b
      rw [intercalate_map_cons, hb] at h
      exact absurd (List.head_eq_of_cons_eq h).symm hfirst
  | cons a as =>
    cases bs with
    | nil =>
      obtain ⟨more, ha⟩ := hwrite a
      rw [intercalate_map_cons, ha] at h
      exact absurd (List.head_eq_of_cons_eq h) hfirst
    | cons b bs =>
      obtain ⟨ha, hasRest⟩ := List.forall_mem_cons.mp has
      obtain ⟨hb, hbsRest⟩ := List.forall_mem_cons.mp hbs
      rw [intercalate_map_cons, intercalate_map_cons, List.append_assoc, List.append_assoc] at h
      obtain ⟨rfl, hmore⟩ := ha b hb _ _ h
      obtain ⟨rfl, hrest⟩ := Delimited.flatMap hasRest hbsRest hstop hmore
      exact ⟨rfl, hrest⟩

end Delimited

namespace ParseTree

/-- The labels and words of a tree have the property `p`, and its inner nodes have children. -/
structure Regular (p : String → Prop) (t : ParseTree) : Prop where
  label : ∀ s ∈ t.subtrees, p s.label
  word : ∀ word ∈ t.words, p word
  children_ne_nil : ∀ s ∈ t.subtrees, s.isLeaf = false → s.children ≠ []

variable {p : String → Prop}

theorem regular_leaf {label word : String} :
    (leaf label word).Regular p ↔ p label ∧ p word := by
  constructor
  · intro h
    exact ⟨h.label _ (self_mem_subtrees _), h.word _ (List.mem_singleton_self _)⟩
  · rintro ⟨hlabel, hword⟩
    exact ⟨List.forall_mem_singleton.mpr hlabel, List.forall_mem_singleton.mpr hword,
      List.forall_mem_singleton.mpr nofun⟩

theorem regular_node {label : String} {ts : List ParseTree} :
    (node label ts).Regular p ↔ p label ∧ ts ≠ [] ∧ ∀ t ∈ ts, t.Regular p := by
  constructor
  · intro h
    have hroot := self_mem_subtrees (node label ts)
    refine ⟨h.label _ hroot, h.children_ne_nil _ hroot rfl, fun t ht => ?_⟩
    have hbelow : ∀ s ∈ t.subtrees, s ∈ (node label ts).subtrees :=
      fun s hs => mem_subtrees_node.mpr (Or.inr ⟨t, ht, hs⟩)
    have hwords := words_subset (hbelow t (self_mem_subtrees t))
    exact ⟨fun s hs => h.label s (hbelow s hs), fun word hword => h.word word (hwords hword),
      fun s hs => h.children_ne_nil s (hbelow s hs)⟩
  · rintro ⟨hlabel, hne, hts⟩
    refine ⟨fun s hs => ?_, fun word hword => ?_, fun s hs hinner => ?_⟩
    · rcases mem_subtrees_node.mp hs with rfl | ⟨t, ht, hs⟩
      · exact hlabel
      · exact (hts t ht).label s hs
    · rw [words_node] at hword
      obtain ⟨t, ht, hword⟩ := List.mem_flatMap.mp hword
      exact (hts t ht).word word hword
    · rcases mem_subtrees_node.mp hs with rfl | ⟨t, ht, hs⟩
      · exact hne
      · exact (hts t ht).children_ne_nil s hs hinner

end ParseTree

end PhraseStructure
