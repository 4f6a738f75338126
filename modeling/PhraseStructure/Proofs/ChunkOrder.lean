import Mathlib.Tactic
import PhraseStructure.Proofs.DerivationTree

/-!
# Where the chunks of a sentence stand

The words of a tree are those of its chunks, one chunk after the other, with other words before,
between and behind them: no chunk is below another, and chunks are collected from left to right as
words are. In a tree that is parsed, no chunk is without words.
-/

namespace PhraseStructure

/-- Trees whose words stand in a text one after the other, with gaps around them. -/
inductive Spaced : List String → List ParseTree → Prop
  | nil (gap : List String) : Spaced gap []
  | cons (gap : List String) {t : ParseTree} {rest : List String} {ts : List ParseTree} :
      Spaced rest ts → Spaced (gap ++ t.words ++ rest) (t :: ts)

theorem stretch_append_add {α : Type} (before as : List α) (start stop : Nat) :
    stretch (before ++ as) (before.length + start) (before.length + stop) =
      stretch as start stop := by
  unfold stretch
  rw [List.drop_append, List.drop_eq_nil_of_le (Nat.le_add_right _ _), List.nil_append,
    Nat.add_sub_cancel_left, Nat.add_sub_add_left]

namespace Spaced

variable {words more : List String} {ts us : List ParseTree}

theorem singleton (t : ParseTree) : Spaced t.words [t] := by
  have h : Spaced ([] ++ t.words ++ []) [t] := .cons [] (.nil [])
  simpa using h

theorem prepend (gap : List String) (h : Spaced words ts) : Spaced (gap ++ words) ts := by
  cases h with
  | nil gap' => exact .nil _
  | cons gap' hrest =>
    rw [List.append_assoc gap', ← List.append_assoc gap, ← List.append_assoc]
    exact .cons (gap ++ gap') hrest

theorem append (h : Spaced words ts) (hmore : Spaced more us) :
    Spaced (words ++ more) (ts ++ us) := by
  induction h with
  | nil gap => exact hmore.prepend gap
  | cons gap _ ih =>
    rw [List.append_assoc]
    exact .cons gap ih

theorem flatMap {α : Type} {as : List α} {f : α → List String} {g : α → List ParseTree}
    (h : ∀ a ∈ as, Spaced (f a) (g a)) : Spaced (as.flatMap f) (as.flatMap g) := by
  induction as with
  | nil => exact .nil []
  | cons a as ih =>
    obtain ⟨hfirst, hrest⟩ := List.forall_mem_cons.mp h
    exact hfirst.append (ih hrest)

theorem exists_gaps (h : Spaced words ts) :
    ∃ (first : List String) (gaps : List (List String)), gaps.length = ts.length ∧
      words = first ++ (List.zipWith (fun t gap => t.words ++ gap) ts gaps).flatten := by
  induction h with
  | nil gap => exact ⟨gap, [], rfl, (List.append_nil gap).symm⟩
  | @cons gap t rest ts _ ih =>
    obtain ⟨first, gaps, hlength, rfl⟩ := ih
    refine ⟨gap, first :: gaps, ?_, ?_⟩
    · rw [List.length_cons, List.length_cons, hlength]
    · rw [List.zipWith_cons_cons, List.flatten_cons, List.append_assoc, List.append_assoc]

/-- The places of the trees, from the first word of each to behind its last. -/
theorem exists_places (h : Spaced words ts) :
    ∃ places : List (Nat × Nat),
      List.Forall₂ (fun t place => place.2 ≤ words.length ∧
        t.words = stretch words place.1 place.2) ts places ∧
        places.Pairwise fun place place' => place.2 ≤ place'.1 := by
  induction h with
  | nil gap => exact ⟨[], .nil, .nil⟩
  | @cons gap t rest ts _ ih =>
    obtain ⟨places, hplaces, hincreasing⟩ := ih
    let moved (place : Nat × Nat) : Nat × Nat :=
      ((gap ++ t.words).length + place.1, (gap ++ t.words).length + place.2)
    refine ⟨(gap.length, (gap ++ t.words).length) :: places.map moved, .cons ?_ ?_,
      List.pairwise_cons.mpr ⟨?_, ?_⟩⟩
    · constructor
      · have hlength : (gap ++ t.words ++ rest).length = (gap ++ t.words).length + rest.length :=
          List.length_append
        omega
      · have hmoved := stretch_append_add gap (t.words ++ rest) 0 t.words.length
        rw [Nat.add_zero, ← List.length_append, ← List.append_assoc] at hmoved
        rw [hmoved]
        unfold stretch
        rw [List.drop_zero, Nat.sub_zero, List.take_left]
    · rw [List.forall₂_map_right_iff]
      refine hplaces.imp fun u place hplace => ?_
      obtain ⟨hle, hwords⟩ := hplace
      constructor
      · rw [List.length_append]
        exact Nat.add_le_add_left hle _
      · rw [stretch_append_add]
        exact hwords
    · intro place hplace
      obtain ⟨place', -, rfl⟩ := List.mem_map.mp hplace
      exact Nat.le_add_right _ _
    · rw [List.pairwise_map]
      exact hincreasing.imp fun hle => Nat.add_le_add_left hle _

end Spaced

namespace ParseTree

theorem spaced_chunks (label : String) (t : ParseTree) : Spaced t.words (t.chunks label) := by
  induction t with
  | leaf l word =>
    rw [chunks]
    split_ifs
    · exact .singleton _
    · exact .nil _
  | node l ts ih =>
    rw [chunks_node]
    split_ifs
    · exact .singleton _
    · rw [words_node]
      exact Spaced.flatMap ih

end ParseTree

theorem lt_of_stretch_ne_nil {α : Type} {as : List α} {start stop : Nat}
    (h : stretch as start stop ≠ []) : start < stop := by
  by_contra hle
  apply h
  unfold stretch
  rw [Nat.sub_eq_zero_of_le (Nat.not_lt.mp hle), List.take_zero]

/-- The words of a tree are those of its chunks in their order, with gaps around them. In a tree
that is pulled from a parse, the chunks are stretches of the sentence, none of them empty, and each
begins where the one before has ended, or later. -/
theorem ParseTree.chunks_in_order (label : String) (t : ParseTree) :
    (∃ (first : List String) (gaps : List (List String)),
      gaps.length = (t.chunks label).length ∧
        t.words = first ++
          (List.zipWith (fun c gap => c.words ++ gap) (t.chunks label) gaps).flatten) ∧
      ∀ (g : Grammar) (start : String) (words : List String) (d : Derivations) (n : Nat),
        g.Loaded → g.Small → g.parse start words = .ok d → (d.after n).next.1 = some t →
          ∃ places : List (Nat × Nat),
            List.Forall₂ (fun c place => place.1 < place.2 ∧ place.2 ≤ words.length ∧
              c.words = stretch words place.1 place.2) (t.chunks label) places ∧
              places.Pairwise fun place place' => place.2 ≤ place'.1 := by
  have hspaced := spaced_chunks label t
  refine ⟨hspaced.exists_gaps, ?_⟩
  intro g start words d n hloaded hsmall hparse ht
  have hg := hloaded.wellFormed
  obtain ⟨-, rfl, hderives⟩ := Grammar.derives_of_parse hg hsmall hparse ht
  obtain ⟨places, hplaces, hincreasing⟩ := hspaced.exists_places
  have hchunks : ∀ c ∈ t.chunks label, c.words ≠ [] := fun c hc =>
    hg.words_ne_nil (hderives.subtree (mem_chunks.mp hc).1)
  refine ⟨places, ?_, hincreasing⟩
  have hboth := (List.forall₂_and_left _ _).mpr ⟨hchunks, hplaces⟩
  refine hboth.imp fun c place h => ?_
  obtain ⟨hne, hle, hwords⟩ := h
  exact ⟨lt_of_stretch_ne_nil (hwords ▸ hne), hle, hwords⟩

/-- The smallest phrases of the second bracketing of three words. -/
theorem ParseTree.chunks_of_bracketing :
    ∃ t, (((Chart.ofTerminals .bracketings [0, 0, 0]).derivations 0).after 1).next.1 = some t ∧
      (t.chunks "S").length = 3 ∧ ∃ places : List (Nat × Nat),
        List.Forall₂ (fun c place => place.1 < place.2 ∧ place.2 ≤ ["a", "a", "a"].length ∧
          c.words = stretch ["a", "a", "a"] place.1 place.2) (t.chunks "S") places ∧
          places.Pairwise fun place place' => place.2 ≤ place'.1 := by
  have hlength : ((((Chart.ofTerminals .bracketings [0, 0, 0]).derivations 0).after
      1).next.1.map fun t => (t.chunks "S").length) = some 3 := by decide +kernel
  obtain ⟨t, ht, hthree⟩ := Option.map_eq_some_iff.mp hlength
  obtain ⟨-, hplaces⟩ := chunks_in_order "S" t
  exact ⟨t, ht, hthree, hplaces _ _ _ _ _ Grammar.loaded_bracketings Grammar.small_bracketings
    Grammar.parse_bracketings ht⟩

end PhraseStructure
