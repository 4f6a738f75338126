import Mathlib.Tactic
import PhraseStructure.Proofs.Chart

/-!
# The order in which ways are recorded

The ways of an edge are recorded in three phases. The lexical way of a single token comes first.
Branching ways come rule by rule, and for one rule in the order of the cuts. The unary closure only
appends, and it records a rule once. Ways of other non-terminals of the same stretch are recorded in
between, but they go to their own lists.
-/

namespace PhraseStructure

namespace Chart

/-- The ways of an edge by the phase in which they are recorded. -/
structure Phases (g : Grammar) (e : Edge) (lexical branching unary : List Way) : Prop where
  lexical_cases : lexical = [] ∨ ∃ t, lexical = [.word t] ∧ e.stop = e.start + 1
  mem_branching {way : Way} : way ∈ branching → ∃ i cs, way = .split i cs ∧ 2 ≤ cs.length ∧
    (g.alternatives e.category)[i]? = some (cs.map Edge.symbol) ∧ Tiles e.start e.stop cs
  sorted : branching.Pairwise Way.Before
  mem_unary {way : Way} : way ∈ unary → ∃ i child, way = .split i [⟨e.start, e.stop, child⟩] ∧
    (g.alternatives e.category)[i]? = some [.nonTerminal child]
  once (i : Nat) : unary.countP (Way.isBy i) ≤ 1
  branching_eq_nil : e.stop = e.start + 1 → branching = []

variable {g : Grammar} {tokens : List SymbolId}

theorem phases_nil (e : Edge) : Phases g e [] [] [] where
  lexical_cases := Or.inl rfl
  mem_branching h := absurd h List.not_mem_nil
  sorted := .nil
  mem_unary h := absurd h List.not_mem_nil
  once _ := Nat.zero_le 1
  branching_eq_nil _ := rfl

section

variable (hg : g.Coherent)
include hg

theorem get_lexicalCell_eq (start : Nat) (nt : SymbolId) :
    (lexicalCell g tokens start).get nt = [] ∨
      ∃ t, (lexicalCell g tokens start).get nt = [.word t] := by
  cases ht : tokens[start]? with
  | none =>
    unfold lexicalCell
    rw [ht]
    exact Or.inl (Multimap.get_empty nt)
  | some t =>
    have hcount : (g.lexicon.get t).count nt ≤ 1 :=
      List.nodup_iff_count_le_one.mp (hg.nodup_lexicon t) nt
    rw [get_lexicalCell ht]
    rcases Nat.le_one_iff_eq_zero_or_eq_one.mp hcount with hzero | hone
    · exact Or.inl (by rw [hzero, List.replicate_zero])
    · exact Or.inr ⟨t, by rw [hone, List.replicate_one]⟩

/-- Before its unary closure, a cell has the lexical ways of its token or the branching ways of its
stretch. -/
theorem phases_openCell (hsmall : g.Small) (e : Edge) :
    ∃ lexical branching, (openCell g tokens e.start e.stop).get e.category = lexical ++ branching ∧
      Phases g e lexical branching [] := by
  have hnone := phases_nil (g := g) e
  unfold openCell
  split_ifs with hone
  · refine ⟨_, [], (List.append_nil _).symm, { hnone with lexical_cases := ?_ }⟩
    rcases get_lexicalCell_eq hg e.start e.category with hnil | ⟨t, ht⟩
    · exact Or.inl hnil
    · exact Or.inr ⟨t, ht, hone⟩
  · refine ⟨[], _, (List.nil_append _).symm, { hnone with
      mem_branching := ?_
      sorted := pairwise_get_branchingCell hsmall _ _
      branching_eq_nil := fun h => absurd h hone }⟩
    intro way hway
    obtain ⟨i, cs, rfl, hlength, halternative, htiles, -⟩ := (mem_get_branchingCell hg).mp hway
    exact ⟨i, cs, rfl, hlength, halternative, htiles⟩

theorem Phases.close {e : Edge} {lexical branching : List Way} {cell : Cell}
    (h : Phases g e lexical branching []) (hfull : cell.Full)
    (hget : cell.get e.category = lexical ++ branching) :
    ∃ unary, (cell.close g.unaryRules e.start e.stop).get e.category =
      lexical ++ branching ++ unary ∧ Phases g e lexical branching unary := by
  obtain ⟨added, hadds, hindices, hadded⟩ :=
    (Cell.extends_close g.unaryRules e.start e.stop hfull).1.added e.category
  refine ⟨added.map (UnaryRule.way e.start e.stop), by rw [hadds, hget],
    { h with mem_unary := ?_, once := ?_ }⟩
  · intro way hway
    obtain ⟨r, hr, rfl⟩ := List.mem_map.mp hway
    obtain ⟨hrule, hlhs, -⟩ := hadded r hr
    exact ⟨r.index, r.child, rfl, hlhs ▸ hg.mem_unaryRules.mp hrule⟩
  · intro i
    calc (added.map (UnaryRule.way e.start e.stop)).countP (Way.isBy i)
        = (added.map UnaryRule.index).count i := by
          rw [List.countP_map, List.count, List.countP_map]
          rfl
      _ ≤ 1 := List.nodup_iff_count_le_one.mp hindices i

theorem phases_waysOf (hsmall : g.Small) (e : Edge) :
    ∃ lexical branching unary,
      (ofTerminals g tokens).waysOf e = lexical ++ branching ++ unary ∧
        Phases g e lexical branching unary := by
  unfold waysOf ways
  by_cases h : e.start < e.stop ∧ e.stop ≤ tokens.length
  · rw [cell_ofTerminals h.1 h.2]
    obtain ⟨lexical, branching, hget, hphases⟩ := phases_openCell hg hsmall e
    exact ⟨lexical, branching, hphases.close hg full_openCell hget⟩
  · rw [cell_eq_empty h]
    exact ⟨[], [], [], Multimap.get_empty _, phases_nil e⟩

end

/-- The ways of an edge are the word of a single token, if it is one, then the branching ways in the
order of their alternatives and cuts, then the unary ways, of each alternative at most one. -/
theorem ways_in_phases (hloaded : g.Loaded) (hsmall : g.Small) {words : List String} {c : Chart}
    (h : ofTokens g words = .ok c) (e : Edge) :
    ∃ lexical branching unary, c.waysOf e = lexical ++ branching ++ unary ∧
      Phases g e lexical branching unary := by
  obtain ⟨tokens, -, rfl⟩ := ofTokens_eq_ok.mp h
  exact phases_waysOf hloaded.wellFormed.toCoherent hsmall e

/-- Three words have two branching ways, by the same alternative with different cuts. -/
theorem ways_of_bracketings :
    (ofTerminals .bracketings [0, 0, 0]).waysOf ⟨0, 3, 0⟩ =
      [.split 0 [⟨0, 1, 0⟩, ⟨1, 3, 0⟩], .split 0 [⟨0, 2, 0⟩, ⟨2, 3, 0⟩]] ∧
      ∃ lexical branching unary,
        (ofTerminals .bracketings [0, 0, 0]).waysOf ⟨0, 3, 0⟩ = lexical ++ branching ++ unary ∧
          Phases .bracketings ⟨0, 3, 0⟩ lexical branching unary :=
  ⟨by decide +kernel, ways_in_phases Grammar.loaded_bracketings Grammar.small_bracketings
    ofTokens_bracketings ⟨0, 3, 0⟩⟩

end Chart

end PhraseStructure
