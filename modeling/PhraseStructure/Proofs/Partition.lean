import Mathlib.Tactic
import PhraseStructure.Chart.Edge

/-!
# What partitions are found

The search for partitions finds each sequence of edges that tiles the stretch, has the symbols as
its labels and is derivable edge by edge, and finds it once: the partitions come in the strict
lexicographic order of their cuts.
-/

namespace PhraseStructure

def Edge.symbol (e : Edge) : Symbol := .nonTerminal e.category

/-- Edges, none of them empty, that follow each other without gaps from `pos` to `stop`. -/
inductive Tiles : (pos stop : Nat) → List Edge → Prop
  | nil (pos : Nat) : Tiles pos pos []
  | cons {pos cut stop : Nat} {nt : SymbolId} {rest : List Edge} :
      pos < cut → Tiles cut stop rest → Tiles pos stop (⟨pos, cut, nt⟩ :: rest)

namespace Tiles

variable {pos stop : Nat} {es : List Edge}

theorem add_length_le (h : Tiles pos stop es) : pos + es.length ≤ stop := by
  induction h with
  | nil => exact le_rfl
  | cons hlt _ ih =>
    rw [List.length_cons]
    omega

theorem bounds (h : Tiles pos stop es) {e : Edge} (he : e ∈ es) :
    pos ≤ e.start ∧ e.start < e.stop ∧ e.stop ≤ stop := by
  induction h with
  | nil => exact absurd he List.not_mem_nil
  | cons hlt hrest ih =>
    have hle := hrest.add_length_le
    rcases List.mem_cons.mp he with rfl | he
    · exact ⟨le_rfl, hlt, (Nat.le_add_right _ _).trans hle⟩
    · obtain ⟨hstart, hne, hstop⟩ := ih he
      exact ⟨hlt.le.trans hstart, hne, hstop⟩

theorem ne_nil_of_lt (h : Tiles pos stop es) (hlt : pos < stop) : es ≠ [] := by
  cases h with
  | nil => exact absurd hlt (Nat.lt_irrefl _)
  | cons => exact List.cons_ne_nil _ _

theorem shorter (h : Tiles pos stop es) (hlength : 2 ≤ es.length) {e : Edge} (he : e ∈ es) :
    e.stop - e.start < stop - pos := by
  cases h with
  | nil => exact absurd he List.not_mem_nil
  | @cons _ cut _ nt rest hlt hrest =>
    have hle := hrest.add_length_le
    rw [List.length_cons] at hlength
    rcases List.mem_cons.mp he with rfl | he
    · dsimp only
      omega
    · have := hrest.bounds he
      omega

theorem singleton_iff {e : Edge} :
    Tiles pos stop [e] ↔ e.start = pos ∧ e.stop = stop ∧ pos < stop := by
  constructor
  · intro h
    cases h with
    | cons hlt hrest =>
      cases hrest
      exact ⟨rfl, rfl, hlt⟩
  · rintro ⟨rfl, rfl, hlt⟩
    exact .cons hlt (.nil _)

end Tiles

/-- The elements of a list from position `start` to position `stop`, that one excluded. -/
def stretch {α : Type} (as : List α) (start stop : Nat) : List α :=
  (as.drop start).take (stop - start)

theorem stretch_append {α : Type} (as : List α) {start cut stop : Nat} (h : start ≤ cut)
    (h' : cut ≤ stop) : stretch as start cut ++ stretch as cut stop = stretch as start stop := by
  have hdrop : as.drop cut = (as.drop start).drop (cut - start) := by
    rw [List.drop_drop, Nat.add_sub_cancel' h]
  have hlength : stop - start = (cut - start) + (stop - cut) := by omega
  unfold stretch
  rw [hdrop, hlength, List.take_add]

theorem stretch_succ {α : Type} {as : List α} {start : Nat} {a : α} (h : as[start]? = some a) :
    stretch as start (start + 1) = [a] := by
  obtain ⟨hlt, rfl⟩ := List.getElem?_eq_some_iff.mp h
  unfold stretch
  rw [List.drop_eq_getElem_cons hlt, Nat.add_sub_cancel_left, List.take_one, List.head?_cons]
  rfl

theorem stretch_all {α : Type} (as : List α) : stretch as 0 as.length = as := by
  unfold stretch
  simp

theorem length_stretch {α : Type} {as : List α} {start stop : Nat} (h : stop ≤ as.length) :
    (stretch as start stop).length = stop - start := by
  unfold stretch
  rw [List.length_take, List.length_drop]
  omega

theorem of_stretch_eq_singleton {α : Type} {as : List α} {start stop : Nat} {a : α}
    (hstop : stop ≤ as.length) (h : stretch as start stop = [a]) :
    stop = start + 1 ∧ as[start]? = some a := by
  have hlength := congrArg List.length h
  rw [length_stretch hstop, List.length_singleton] at hlength
  obtain rfl : stop = start + 1 := by omega
  obtain ⟨b, hb⟩ : ∃ b, as[start]? = some b := ⟨_, List.getElem?_eq_getElem hstop⟩
  rw [stretch_succ hb] at h
  obtain rfl := List.singleton_inj.mp h
  exact ⟨rfl, hb⟩

/-- Edges that tile a stretch cut it into their own stretches. -/
theorem Tiles.flatMap_stretch {α : Type} (as : List α) {pos stop : Nat} {es : List Edge}
    (h : Tiles pos stop es) :
    es.flatMap (fun e => stretch as e.start e.stop) = stretch as pos stop := by
  induction h with
  | nil pos =>
    unfold stretch
    rw [Nat.sub_self, List.take_zero]
    rfl
  | @cons pos cut stop nt rest hlt hrest ih =>
    have hle := hrest.add_length_le
    rw [List.flatMap_cons, ih]
    exact stretch_append as hlt.le (show cut ≤ stop by omega)

variable {derives : Nat → Nat → SymbolId → Bool}

/-- Where the first of several edges may end if `more` follow it. -/
def cuts (more pos stop : Nat) : List Nat :=
  if stop - pos < more + 1 then []
  else
    let first := if more = 0 then stop else pos + 1
    List.range' first (stop - more + 1 - first)

theorem mem_cuts {more pos stop cut : Nat} :
    cut ∈ cuts more pos stop ↔ pos < cut ∧ cut + more ≤ stop ∧ (more = 0 → cut = stop) := by
  unfold cuts
  dsimp only
  split_ifs with hshort hlast
  · simp only [List.not_mem_nil, false_iff]
    omega
  · rw [List.mem_range'_1]
    omega
  · rw [List.mem_range'_1]
    omega

theorem pairwise_cuts (more pos stop : Nat) : (cuts more pos stop).Pairwise (· < ·) := by
  unfold cuts
  dsimp only
  split_ifs
  · exact .nil
  · exact List.pairwise_lt_range'
  · exact List.pairwise_lt_range'

theorem partitions_cons (nt : SymbolId) (rest : List Symbol) (pos stop : Nat) :
    partitions derives (.nonTerminal nt :: rest) pos stop =
      (cuts rest.length pos stop).flatMap fun cut =>
        if derives pos cut nt then
          (partitions derives rest cut stop).map (⟨pos, cut, nt⟩ :: ·)
        else [] := by
  unfold cuts
  rw [partitions]
  split_ifs <;> simp_all

theorem mem_partitions_cons {nt : SymbolId} {rest : List Symbol} {pos stop : Nat} {es : List Edge} :
    es ∈ partitions derives (.nonTerminal nt :: rest) pos stop ↔
      ∃ cut tail, cut ∈ cuts rest.length pos stop ∧ derives pos cut nt = true ∧
        tail ∈ partitions derives rest cut stop ∧ es = ⟨pos, cut, nt⟩ :: tail := by
  rw [partitions_cons, List.mem_flatMap]
  apply exists_congr
  intro cut
  split_ifs with h
  · simp [h, eq_comm]
  · simp [h]

theorem mem_partitions {symbols : List Symbol} {pos stop : Nat} {es : List Edge} :
    es ∈ partitions derives symbols pos stop ↔
      symbols = es.map Edge.symbol ∧ Tiles pos stop es ∧
        ∀ e ∈ es, derives e.start e.stop e.category = true := by
  induction symbols generalizing pos es with
  | nil =>
    rw [partitions]
    constructor
    · intro h
      split_ifs at h with hpos
      · obtain rfl := List.mem_singleton.mp h
        exact ⟨rfl, hpos ▸ .nil pos, by simp⟩
      · exact absurd h List.not_mem_nil
    · rintro ⟨hsymbols, htiles, -⟩
      obtain rfl := List.map_eq_nil_iff.mp hsymbols.symm
      cases htiles
      simp
  | cons s rest ih =>
    cases s with
    | terminal t =>
      constructor
      · intro h
        exact absurd h List.not_mem_nil
      · rintro ⟨hsymbols, -, -⟩
        cases es <;> cases hsymbols
    | nonTerminal nt =>
      rw [mem_partitions_cons]
      constructor
      · rintro ⟨cut, tail, hcut, hderives, htail, rfl⟩
        obtain ⟨hsymbols, htiles, hall⟩ := ih.mp htail
        exact ⟨by rw [hsymbols]; rfl, .cons (mem_cuts.mp hcut).1 htiles,
          List.forall_mem_cons.mpr ⟨hderives, hall⟩⟩
      · rintro ⟨hsymbols, htiles, hall⟩
        cases htiles with
        | nil => cases hsymbols
        | @cons _ cut _ nt' tail hlt htail =>
          obtain ⟨rfl, rfl⟩ : nt = nt' ∧ rest = tail.map Edge.symbol := by
            simpa [Edge.symbol] using hsymbols
          obtain ⟨hderives, hall⟩ := List.forall_mem_cons.mp hall
          refine ⟨cut, tail, mem_cuts.mpr ⟨hlt, ?_, ?_⟩, hderives, ih.mpr ⟨rfl, htail, hall⟩, rfl⟩
          · simpa using htail.add_length_le
          · intro hnil
            obtain rfl : tail = [] := by simpa using hnil
            cases htail
            rfl

theorem pairwise_partitions (symbols : List Symbol) (pos stop : Nat) :
    (partitions derives symbols pos stop).Pairwise
      fun es fs => es.map Edge.stop < fs.map Edge.stop := by
  induction symbols generalizing pos with
  | nil =>
    rw [partitions]
    split_ifs
    · exact List.pairwise_singleton _ _
    · exact .nil
  | cons s rest ih =>
    cases s with
    | terminal t => exact .nil
    | nonTerminal nt =>
      rw [partitions_cons, List.pairwise_flatMap]
      constructor
      · intro cut _
        split_ifs
        · rw [List.pairwise_map]
          exact (ih cut).imp fun h => List.cons_lt_cons_iff.mpr (Or.inr ⟨rfl, h⟩)
        · exact .nil
      · refine (pairwise_cuts _ _ _).imp fun {cut cut'} hlt es hes fs hfs => ?_
        split_ifs at hes hfs with hcut hcut'
        · obtain ⟨tail, -, rfl⟩ := List.mem_map.mp hes
          obtain ⟨tail', -, rfl⟩ := List.mem_map.mp hfs
          exact List.cons_lt_cons_iff.mpr (Or.inl hlt)
        all_goals simp at hes hfs

theorem nodup_partitions (symbols : List Symbol) (pos stop : Nat) :
    (partitions derives symbols pos stop).Nodup := by
  refine (pairwise_partitions symbols pos stop).imp fun hlt heq => ?_
  rw [heq] at hlt
  exact lt_irrefl _ hlt

end PhraseStructure
