import Mathlib.Tactic
import PhraseStructure.Proofs.Table

/-!
# Finding partitions by backtracking

The partitions of a stretch can also be collected by one search that goes forward and back. It keeps
the edges that it has chosen as a path, puts an edge at the end of the path before it searches what
is behind the edge, and takes it away again. In a square table it looks up no cell that is not
there, leaves the path as it was, and appends the partitions, each behind the path, to what has been
found before.
-/

namespace PhraseStructure

/-- The edges that a search has chosen, and the lists of edges that it has found. -/
structure Search where
  path : List Edge
  found : List (List Edge)
  deriving DecidableEq, Repr

namespace Search

variable {α : Type}

/-- Finds more lists of edges, each behind the path. -/
def find (state : Search) (more : List (List Edge)) : Search :=
  { state with found := state.found ++ more.map (state.path ++ ·) }

@[simp] theorem find_nil (state : Search) : state.find [] = state := by
  simp [find]

theorem find_append (state : Search) (more more' : List (List Edge)) :
    state.find (more ++ more') = (state.find more).find more' := by
  simp [find]

theorem foldl_find (more : α → List (List Edge)) (as : List α) (state : Search) :
    as.foldl (fun state a => state.find (more a)) state = state.find (as.flatMap more) := by
  induction as generalizing state with
  | nil => rw [List.foldl_nil, List.flatMap_nil, find_nil]
  | cons a as ih => rw [List.foldl_cons, ih, List.flatMap_cons, find_append]

def push (state : Search) (e : Edge) : Search := { state with path := state.path ++ [e] }

def pop (state : Search) : Search := { state with path := state.path.dropLast }

/-- What is found behind an edge is found with that edge in front. -/
theorem pop_find_push (state : Search) (e : Edge) (more : List (List Edge)) :
    ((state.push e).find more).pop = state.find (more.map (e :: ·)) := by
  simp [push, pop, find, Function.comp_def]

end Search

namespace Table

/-- Searches the partitions of the tokens from `pos` to `stop`. -/
def search? (table : Table) : List Symbol → (pos stop : Nat) → Search → Option Search
  | [], pos, stop, state => some (if pos = stop then state.find [[]] else state)
  | .terminal _ :: _, pos, stop, state => do
    let _ ← minus? stop pos
    return state
  | .nonTerminal nt :: rest, pos, stop, state => do
    let room ← minus? stop pos
    if room < rest.length + 1 then return state
    else
      let first := if rest.isEmpty then stop else pos + 1
      let last ← minus? stop rest.length
      (List.range' first (last + 1 - first)).foldlM
        (fun state cut => do
          let cell ← table.cell? pos cut
          if cell.hasKey nt then
            let behind ← search? table rest cut stop (state.push ⟨pos, cut, nt⟩)
            return behind.pop
          else return state)
        state

def derives (table : Table) (start stop : Nat) (nt : SymbolId) : Bool :=
  (table.cell? start stop).any (·.hasKey nt)

/-- The table has as many rows, and as many cells in each row, as the sentence has positions. -/
structure Square (table : Table) (length : Nat) : Prop where
  rows : table.size = length + 1
  columns : ∀ row ∈ table, row.size = length + 1

variable {table : Table} {length pos stop : Nat} {symbols : List Symbol}

theorem Square.exists_cell? (h : table.Square length) {start stop : Nat} (hstart : start ≤ length)
    (hstop : stop ≤ length) : ∃ cell, table.cell? start stop = some cell := by
  have hrow : start < table.size := by rw [h.rows]; omega
  have hcolumn : stop < table[start].size := by
    rw [h.columns _ (Array.getElem_mem hrow)]
    omega
  refine ⟨table[start][stop], ?_⟩
  simp [cell?, hrow, hcolumn]

theorem search?_eq (htable : table.Square length) (hpos : pos ≤ stop) (hstop : stop ≤ length)
    (state : Search) :
    table.search? symbols pos stop state =
      some (state.find (partitions table.derives symbols pos stop)) := by
  induction symbols generalizing pos state with
  | nil =>
    rw [search?, partitions]
    split_ifs
    · rfl
    · rw [Search.find_nil]
  | cons symbol rest ih =>
    cases symbol with
    | terminal t =>
      rw [search?, minus?_of_le hpos, partitions, Search.find_nil]
      rfl
    | nonTerminal nt =>
      rw [search?, minus?_of_le hpos, partitions]
      dsimp only [Option.bind_eq_bind, Option.bind_some]
      by_cases hroom : stop - pos < rest.length + 1
      · rw [if_pos hroom, if_pos hroom, Search.find_nil]
        rfl
      · rw [if_neg hroom, if_neg hroom, minus?_of_le (show rest.length ≤ stop by omega),
          Option.bind_some, ← Search.foldl_find]
        generalize (if rest.isEmpty then stop else pos + 1) = first
        apply foldlM_eq_some
        intro cut hcut state
        rw [List.mem_range'_1] at hcut
        have hcutstop : cut ≤ stop := by omega
        obtain ⟨cell, hcell⟩ := htable.exists_cell? (hpos.trans hstop) (hcutstop.trans hstop)
        have hderives : table.derives pos cut nt = cell.hasKey nt := by
          rw [derives, hcell, Option.any_some]
        rw [hcell, Option.bind_some, hderives]
        split_ifs
        · rw [ih hcutstop, Option.bind_some, Search.pop_find_push]
          rfl
        · rw [Search.find_nil]
          rfl

/-- A search appends, each behind the path, the lists of edges that tile the stretch, have the
symbols as their labels and are in the table, in the strict lexicographic order of their cuts. The
path is the same afterwards. -/
theorem search?_exact (htable : table.Square length) (hpos : pos ≤ stop) (hstop : stop ≤ length)
    (symbols : List Symbol) (path : List Edge) (found : List (List Edge)) :
    ∃ more, table.search? symbols pos stop ⟨path, found⟩ =
        some ⟨path, found ++ more.map (path ++ ·)⟩ ∧
      more = partitions table.derives symbols pos stop ∧
      (∀ es, es ∈ more ↔ symbols = es.map Edge.symbol ∧ Tiles pos stop es ∧
        ∀ e ∈ es, ∃ cell, table.cell? e.start e.stop = some cell ∧
          cell.hasKey e.category = true) ∧
      more.Pairwise (fun es fs => es.map Edge.stop < fs.map Edge.stop) ∧ more.Nodup ∧
      ((∃ t, .terminal t ∈ symbols) → more = []) ∧
      (symbols = [] → more = if pos = stop then [[]] else []) := by
  have hmem : ∀ es, es ∈ partitions table.derives symbols pos stop ↔
      symbols = es.map Edge.symbol ∧ Tiles pos stop es ∧
        ∀ e ∈ es, ∃ cell, table.cell? e.start e.stop = some cell ∧
          cell.hasKey e.category = true := by
    intro es
    rw [mem_partitions]
    simp only [derives, Option.any_eq_true]
  refine ⟨_, search?_eq htable hpos hstop ⟨path, found⟩, rfl, hmem,
    pairwise_partitions symbols pos stop, nodup_partitions symbols pos stop, ?_, ?_⟩
  · rintro ⟨t, ht⟩
    rw [List.eq_nil_iff_forall_not_mem]
    intro es hes
    rw [((hmem es).mp hes).1] at ht
    obtain ⟨e, -, he⟩ := List.mem_map.mp ht
    cases he
  · rintro rfl
    rfl

/-- A table that has a non-terminal in each cell, also in those of no stretch, without any ways. -/
def crowded : Table := Array.replicate 4 (Array.replicate 4 ((∅ : Cell).append 0 []))

/-- Three tokens are cut in two in both places, behind the edge that has been chosen before. -/
theorem search?_crowded : crowded.Square 3 ∧ ∃ more : List (List Edge),
    crowded.search? [.nonTerminal 0, .nonTerminal 0] 0 3 ⟨[⟨0, 0, 1⟩], []⟩ =
      some ⟨[⟨0, 0, 1⟩], [] ++ more.map ([⟨0, 0, 1⟩] ++ ·)⟩ ∧
    more = [[⟨0, 1, 0⟩, ⟨1, 3, 0⟩], [⟨0, 2, 0⟩, ⟨2, 3, 0⟩]] := by
  have hsquare : crowded.Square 3 := ⟨by decide, by simp [crowded]⟩
  obtain ⟨more, hsearch, hmore, -⟩ := search?_exact hsquare (show 0 ≤ 3 by decide) le_rfl
    [.nonTerminal 0, .nonTerminal 0] [⟨0, 0, 1⟩] []
  exact ⟨hsquare, more, hsearch, hmore.trans (by decide)⟩

end Table

end PhraseStructure
