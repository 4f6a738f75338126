import Mathlib.Tactic
import PhraseStructure.Proofs.Representation
import PhraseStructure.Proofs.Termination

/-!
# Charts in a square table

A chart can also be kept in a square table, with a cell for any two positions of the sentence, and
be filled in place: the cells of single words first, then those of each length in turn, by the
branching rules and then by the unary rules. Below, each look into the sentence, the grammar or the
table gives up, with nothing, if what is looked for is not there, and so does each difference that
would be negative. None of them gives up, and in the end the table shows the cells of the chart.
-/

namespace PhraseStructure

/-- A difference, unless it would be negative. -/
def minus? (m n : Nat) : Option Nat := if n ≤ m then some (m - n) else none

theorem minus?_of_le {m n : Nat} (h : n ≤ m) : minus? m n = some (m - n) := if_pos h

/-- The cells of all stretches, by their start, then by their end. -/
abbrev Table := Array (Array Cell)

namespace Table

def blank (length : Nat) : Table :=
  Array.replicate (length + 1) (Array.replicate (length + 1) ∅)

def cell? (table : Table) (start stop : Nat) : Option Cell := do
  let row ← table[start]?
  row[stop]?

def modify? (table : Table) (start stop : Nat) (change : Cell → Cell) : Option Table := do
  let row ← table[start]?
  let cell ← row[stop]?
  return table.setIfInBounds start (row.setIfInBounds stop (change cell))

/-- The partitions of the tokens from `pos` to `stop` by the cells of a table. -/
def partitions? (table : Table) : List Symbol → (pos stop : Nat) → Option (List (List Edge))
  | [], pos, stop => some (if pos = stop then [[]] else [])
  | .terminal _ :: _, pos, stop => do
    let _ ← minus? stop pos
    return []
  | .nonTerminal nt :: rest, pos, stop => do
    let room ← minus? stop pos
    if room < rest.length + 1 then return []
    else
      let first := if rest.isEmpty then stop else pos + 1
      let last ← minus? stop rest.length
      let found ← (List.range' first (last + 1 - first)).mapM fun cut => do
        let cell ← table.cell? pos cut
        if cell.hasKey nt then
          return (← partitions? table rest cut stop).map (⟨pos, cut, nt⟩ :: ·)
        else return []
      return found.flatten

def lexicalAt? (g : Grammar) (tokens : List SymbolId) (table : Table) (start : Nat) :
    Option Table := do
  let terminal ← tokens[start]?
  let word ← g.terminals.name? terminal
  (g.categories word).foldlM
    (fun table nt => table.modify? start (start + 1) (·.append nt [.word terminal])) table

def applyBranching? (g : Grammar) (start stop : Nat) (table : Table) (rule : BranchingRule) :
    Option Table := do
  let symbols ← (g.alternatives rule.lhs)[rule.index]?
  match ← table.partitions? symbols start stop with
  | [] => return table
  | found => table.modify? start stop (·.append rule.lhs (found.map (.split rule.index)))

def branching? (g : Grammar) (length n : Nat) (table : Table) : Option Table := do
  let last ← minus? length n
  (List.range (last + 1)).foldlM (fun table start =>
    g.branchingRules.foldlM (applyBranching? g start (start + n)) table) table

def unary? (g : Grammar) (length n : Nat) (table : Table) : Option Table := do
  let last ← minus? length n
  (List.range (last + 1)).foldlM (fun table start =>
    table.modify? start (start + n) (·.close g.unaryRules start (start + n))) table

def complete? (g : Grammar) (length n : Nat) (table : Table) : Option Table := do
  let table ← if n > 1 then table.branching? g length n else pure table
  table.unary? g length n

def fill? (g : Grammar) (tokens : List SymbolId) : Option Table := do
  let table ← (List.range tokens.length).foldlM (lexicalAt? g tokens) (blank tokens.length)
  (List.range tokens.length).foldlM (fun table m => table.complete? g tokens.length (m + 1)) table

/-- The table has a cell for any two positions up to `length`, and no other cells. -/
def Shows (table : Table) (length : Nat) (cells : Nat → Nat → Cell) : Prop :=
  ∀ start stop, table.cell? start stop =
    if start ≤ length ∧ stop ≤ length then some (cells start stop) else none

/-- The cells with another one for the tokens from `start` to `stop`. -/
def put (cells : Nat → Nat → Cell) (start stop : Nat) (cell : Cell) : Nat → Nat → Cell :=
  fun s e => if s = start ∧ e = stop then cell else cells s e

/-- The cells with others for the stretches of `n` tokens that start before `limit`. -/
def putRow (cells : Nat → Nat → Cell) (n limit : Nat) (row : Nat → Cell) : Nat → Nat → Cell :=
  fun s e => if e = s + n ∧ s < limit then row s else cells s e

variable {cells cells' : Nat → Nat → Cell} {length start stop n limit : Nat} {cell : Cell}
  {row : Nat → Cell} {table : Table}

theorem put_self : put cells start stop (cells start stop) = cells := by
  funext s e
  unfold put
  split_ifs with h
  · rw [h.1, h.2]
  · rfl

theorem putRow_zero : putRow cells n 0 row = cells := by
  funext s e
  exact if_neg fun h => Nat.not_lt_zero s h.2

theorem putRow_self (h : start < limit) :
    putRow cells n limit row start (start + n) = row start := if_pos ⟨rfl, h⟩

theorem putRow_of_le (h : limit ≤ start) : putRow cells n limit row start stop = cells start stop :=
  if_neg fun hrow => Nat.not_lt.mpr h hrow.2

theorem putRow_of_ne (h : stop ≠ start + n) :
    putRow cells n limit row start stop = cells start stop := if_neg fun hrow => h hrow.1

theorem put_putRow : put (putRow cells n start row) start (start + n) (row start) =
    putRow cells n (start + 1) row := by
  funext s e
  unfold put putRow
  by_cases hs : s = start
  · subst hs
    by_cases he : e = s + n <;> simp [he]
  · have hlt : s < start + 1 ↔ s < start := by omega
    simp [hs, hlt]

theorem shows_blank (length : Nat) : (blank length).Shows length fun _ _ => ∅ := by
  intro start stop
  simp only [cell?, blank, Option.bind_eq_bind, Array.getElem?_replicate, Nat.lt_succ_iff]
  by_cases hstart : start ≤ length <;> simp [hstart, Array.getElem?_replicate]

namespace Shows

theorem congr (h : table.Shows length cells)
    (heq : ∀ s e, s ≤ length → e ≤ length → cells s e = cells' s e) :
    table.Shows length cells' := by
  intro s e
  rw [h s e]
  split_ifs with hbounds
  · rw [heq s e hbounds.1 hbounds.2]
  · rfl

theorem cell?_eq (h : table.Shows length cells) (hstart : start ≤ length) (hstop : stop ≤ length) :
    table.cell? start stop = some (cells start stop) := by
  rw [h start stop, if_pos ⟨hstart, hstop⟩]

theorem of_cell (h : table.Shows length cells) (hcell : cells start stop = cell) :
    table.Shows length (put cells start stop cell) := by
  rw [← hcell, put_self]
  exact h

theorem exists_modify? (h : table.Shows length (put cells start stop cell))
    (hstart : start ≤ length) (hstop : stop ≤ length) (change : Cell → Cell) :
    ∃ table', table.modify? start stop change = some table' ∧
      table'.Shows length (put cells start stop (change cell)) := by
  obtain ⟨row, hrow, hcell⟩ := Option.bind_eq_some_iff.mp (h.cell?_eq hstart hstop)
  have hat : put cells start stop cell start stop = cell := if_pos ⟨rfl, rfl⟩
  rw [hat] at hcell
  refine ⟨table.setIfInBounds start (row.setIfInBounds stop (change cell)), ?_, ?_⟩
  · unfold modify?
    simp [hrow, hcell]
  · intro s e
    have hold := h s e
    have hsize := (Array.getElem?_eq_some_iff.mp hrow).1
    have hwidth := (Array.getElem?_eq_some_iff.mp hcell).1
    simp only [cell?, Option.bind_eq_bind, put] at hold ⊢
    by_cases hs : s = start
    · subst hs
      rw [hrow, Option.bind_some] at hold
      rw [Array.getElem?_setIfInBounds_self_of_lt hsize, Option.bind_some]
      by_cases he : e = stop
      · subst he
        rw [Array.getElem?_setIfInBounds_self_of_lt hwidth]
        simp [hstart, hstop]
      · rw [Array.getElem?_setIfInBounds_ne (Ne.symm he), hold]
        simp [he]
    · rw [Array.getElem?_setIfInBounds_ne (Ne.symm hs), hold]
      simp [hs]

theorem exists_foldlM {α : Type} {step : Table → α → Option Table} {change : Cell → α → Cell}
    {as : List α}
    (hstep : ∀ a ∈ as, ∀ cell table, table.Shows length (put cells start stop cell) →
      ∃ table', step table a = some table' ∧
        table'.Shows length (put cells start stop (change cell a)))
    (h : table.Shows length (put cells start stop cell)) :
    ∃ table', as.foldlM step table = some table' ∧
      table'.Shows length (put cells start stop (as.foldl change cell)) := by
  induction as generalizing cell table with
  | nil => exact ⟨table, rfl, h⟩
  | cons a as ih =>
    obtain ⟨ha, has⟩ := List.forall_mem_cons.mp hstep
    obtain ⟨table₁, heq, h₁⟩ := ha cell table h
    obtain ⟨table₂, hrest, h₂⟩ := ih has h₁
    refine ⟨table₂, ?_, h₂⟩
    rw [List.foldlM_cons, heq]
    exact hrest

theorem exists_foldlM_range {step : Table → Nat → Option Table}
    (hstep : ∀ start < limit, ∀ table, table.Shows length (putRow cells n start row) →
      ∃ table', step table start = some table' ∧
        table'.Shows length (put (putRow cells n start row) start (start + n) (row start)))
    (h : table.Shows length cells) :
    ∃ table', (List.range limit).foldlM step table = some table' ∧
      table'.Shows length (putRow cells n limit row) := by
  induction limit with
  | zero => exact ⟨table, rfl, putRow_zero.symm ▸ h⟩
  | succ limit ih =>
    obtain ⟨table₁, heq, h₁⟩ := ih fun start hlt => hstep start (hlt.trans (Nat.lt_succ_self limit))
    obtain ⟨table₂, hlast, h₂⟩ := hstep limit (Nat.lt_succ_self limit) table₁ h₁
    refine ⟨table₂, ?_, put_putRow ▸ h₂⟩
    rw [List.range_succ, List.foldlM_append, heq]
    simpa using hlast

theorem partitions?_eq (h : table.Shows length cells) {symbols : List Symbol} {pos : Nat}
    (hpos : pos ≤ stop) (hstop : stop ≤ length) :
    table.partitions? symbols pos stop =
      some (partitions (fun s e nt => (cells s e).hasKey nt) symbols pos stop) := by
  induction symbols generalizing pos with
  | nil => rfl
  | cons symbol rest ih =>
    cases symbol with
    | terminal t =>
      rw [partitions?, minus?_of_le hpos]
      rfl
    | nonTerminal nt =>
      rw [partitions?, minus?_of_le hpos, partitions]
      dsimp only [Option.bind_eq_bind, Option.bind_some]
      by_cases hroom : stop - pos < rest.length + 1
      · rw [if_pos hroom, if_pos hroom]
        rfl
      · rw [if_neg hroom, if_neg hroom, minus?_of_le (show rest.length ≤ stop by omega),
          Option.bind_some]
        generalize (if rest.isEmpty then stop else pos + 1) = first
        rw [mapM_eq_some (g := fun cut => if (cells pos cut).hasKey nt then
          (partitions (fun s e nt => (cells s e).hasKey nt) rest cut stop).map (⟨pos, cut, nt⟩ :: ·)
          else [])]
        · rfl
        · intro cut hcut
          rw [List.mem_range'_1] at hcut
          rw [h.cell?_eq (hpos.trans hstop) (show cut ≤ length by omega), Option.bind_some,
            ih (show cut ≤ stop by omega)]
          split_ifs <;> rfl

end Shows

variable {g : Grammar} {tokens : List SymbolId}

theorem partitions_congr {derives derives' : Nat → Nat → SymbolId → Bool} {symbols : List Symbol}
    {pos : Nat} (h : ∀ s e nt, pos ≤ s → s < e → e ≤ stop → e - s < n →
      derives s e nt = derives' s e nt)
    (hn : stop - pos < n ∨ stop - pos ≤ n ∧ 2 ≤ symbols.length) :
    partitions derives symbols pos stop = partitions derives' symbols pos stop := by
  induction symbols generalizing pos with
  | nil => rfl
  | cons symbol rest ih =>
    cases symbol with
    | terminal t => rfl
    | nonTerminal nt =>
      rw [partitions_cons, partitions_cons]
      apply List.flatMap_congr
      intro cut hcut
      obtain ⟨hlt, hle, -⟩ := mem_cuts.mp hcut
      rw [List.length_cons] at hn
      rw [h pos cut nt le_rfl hlt (by omega) (by omega),
        ih (fun s e nt hs => h s e nt (by omega)) (Or.inl (by omega))]

/-- The cells when all stretches of up to `n` tokens are complete, and the words are recorded. -/
def stage (g : Grammar) (tokens : List SymbolId) (n : Nat) : Nat → Nat → Cell := fun s e =>
  if e ≤ s + n then (Chart.ofTerminals g tokens).cell s e
  else if e = s + 1 then Chart.lexicalCell g tokens s
  else ∅

theorem stage_of_le (h : stop ≤ start + n) :
    stage g tokens n start stop = (Chart.ofTerminals g tokens).cell start stop := if_pos h

theorem stage_word : stage g tokens 0 start (start + 1) = Chart.lexicalCell g tokens start := by
  unfold stage
  rw [if_neg (by omega), if_pos rfl]

theorem stage_of_lt (h : start + n < stop) (hword : stop ≠ start + 1) :
    stage g tokens n start stop = ∅ := by
  unfold stage
  rw [if_neg (by omega), if_neg hword]

theorem exists_lexicalAt? (hg : g.Coherent) (hsmall : g.Small)
    (htokens : ∀ t ∈ tokens, t.toNat < g.terminals.size) (hstart : start < tokens.length)
    (h : table.Shows tokens.length (put cells start (start + 1) ∅)) :
    ∃ table', lexicalAt? g tokens table start = some table' ∧
      table'.Shows tokens.length
        (put cells start (start + 1) (Chart.lexicalCell g tokens start)) := by
  have ht : tokens[start]? = some tokens[start] := List.getElem?_eq_getElem hstart
  have hname := Grammar.name?_terminalText (htokens _ (List.getElem_mem hstart))
  have hid := (hg.terminals.id?_eq_some_iff hsmall.terminals.le).mpr hname
  unfold lexicalAt? Chart.lexicalCell
  rw [ht]
  dsimp only [Option.bind_eq_bind, Option.bind_some]
  rw [hname, Option.bind_some, Grammar.categories, hid]
  refine Shows.exists_foldlM ?_ h
  intro nt _ cell table htable
  exact htable.exists_modify? hstart.le hstart _

theorem exists_applyBranching? (hg : g.Coherent) {shorter : Rows} (hn : start + n ≤ length)
    (hshorter : ∀ s e, s < e → e ≤ start + n → e - s < n → cells s e = shorter.cell s e)
    {rule : BranchingRule} (hrule : rule ∈ g.branchingRules)
    (h : table.Shows length (put cells start (start + n) cell)) :
    ∃ table', applyBranching? g start (start + n) table rule = some table' ∧
      table'.Shows length
        (put cells start (start + n) (Chart.applyBranching shorter start (start + n) cell rule)) := by
  obtain ⟨halternative, hlength⟩ := hg.mem_branchingRules.mp hrule
  have hpartitions : partitions (fun s e nt => (put cells start (start + n) cell s e).hasKey nt)
      rule.symbols start (start + n) =
        partitions (fun s e nt => (shorter.cell s e).hasKey nt) rule.symbols start (start + n) := by
    apply partitions_congr (n := n) _ (Or.inr ⟨by omega, hlength⟩)
    intro s e nt hs hse he hshort
    have hother : ¬(s = start ∧ e = start + n) := by omega
    rw [put, if_neg hother, hshorter s e hse he hshort]
  unfold applyBranching? Chart.applyBranching
  rw [halternative, Option.bind_eq_bind, Option.bind_some,
    h.partitions?_eq (Nat.le_add_right start n) hn, hpartitions, Option.bind_eq_bind,
    Option.bind_some]
  dsimp only
  cases partitions (fun s e nt => (shorter.cell s e).hasKey nt) rule.symbols start (start + n) with
  | nil => exact ⟨table, rfl, h⟩
  | cons es found => exact h.exists_modify? (by omega) hn _

/-- The cells when the stretches of `n` tokens that start before `limit` are open cells. -/
def opened (g : Grammar) (tokens : List SymbolId) (n limit : Nat) : Nat → Nat → Cell :=
  putRow (stage g tokens (n - 1)) n limit fun s => Chart.openCell g tokens s (s + n)

/-- The cells when those of them that start before `limit` are closed. -/
def closed (g : Grammar) (tokens : List SymbolId) (n limit : Nat) : Nat → Nat → Cell :=
  putRow (opened g tokens n (tokens.length - n + 1)) n limit fun s =>
    (Chart.openCell g tokens s (s + n)).close g.unaryRules s (s + n)

theorem exists_branching? (hg : g.Coherent) (hn : n ≤ tokens.length) (hone : 1 < n)
    (h : table.Shows tokens.length (stage g tokens (n - 1))) :
    ∃ table', table.branching? g tokens.length n = some table' ∧
      table'.Shows tokens.length (opened g tokens n (tokens.length - n + 1)) := by
  unfold branching?
  rw [minus?_of_le hn, Option.bind_eq_bind, Option.bind_some]
  refine h.exists_foldlM_range fun start hstart table htable => ?_
  have hempty : opened g tokens n start start (start + n) = ∅ := by
    rw [opened, putRow_of_le le_rfl, stage_of_lt (by omega) (by omega)]
  unfold Chart.openCell
  rw [if_neg (by omega)]
  refine Shows.exists_foldlM (fun rule hrule cell table htable => ?_) (htable.of_cell hempty)
  refine exists_applyBranching? hg (by omega) (fun s e hse he hshort => ?_) hrule htable
  rw [putRow_of_ne (by omega), stage_of_le (by omega), Chart.cell_ofTerminals hse (by omega),
    Chart.cell_firstRows hse (by omega) (by omega)]

/-- With the stretches of `n` tokens closed, all stretches of up to `n` tokens are complete. -/
theorem closed_eq_stage (hpos : 0 < n) (hstop : stop ≤ tokens.length) :
    closed g tokens n (tokens.length - n + 1) start stop = stage g tokens n start stop := by
  unfold closed opened
  by_cases hrow : stop = start + n
  · subst hrow
    rw [putRow_self (by omega), stage_of_le le_rfl, Chart.cell_ofTerminals (by omega) hstop]
  · rw [putRow_of_ne hrow, putRow_of_ne hrow]
    by_cases hle : stop ≤ start + (n - 1)
    · rw [stage_of_le hle, stage_of_le (by omega)]
    · rw [stage_of_lt (by omega) (by omega), stage_of_lt (by omega) (by omega)]

theorem exists_unary? (hn : n ≤ tokens.length) (hpos : 0 < n)
    (h : table.Shows tokens.length (opened g tokens n (tokens.length - n + 1))) :
    ∃ table', table.unary? g tokens.length n = some table' ∧
      table'.Shows tokens.length (stage g tokens n) := by
  have hrow : ∃ table', table.unary? g tokens.length n = some table' ∧
      table'.Shows tokens.length (closed g tokens n (tokens.length - n + 1)) := by
    unfold unary?
    rw [minus?_of_le hn, Option.bind_eq_bind, Option.bind_some]
    refine h.exists_foldlM_range fun start hstart table htable => ?_
    refine Shows.exists_modify? (htable.of_cell ?_) (by omega) (by omega) _
    rw [putRow_of_le le_rfl, opened, putRow_self hstart]
  obtain ⟨table', heq, htable'⟩ := hrow
  exact ⟨table', heq, htable'.congr fun _ _ _ hstop => closed_eq_stage hpos hstop⟩

theorem exists_complete? (hg : g.Coherent) (hn : n < tokens.length)
    (h : table.Shows tokens.length (stage g tokens n)) :
    ∃ table', table.complete? g tokens.length (n + 1) = some table' ∧
      table'.Shows tokens.length (stage g tokens (n + 1)) := by
  unfold complete?
  by_cases hone : n + 1 > 1
  · obtain ⟨table₁, heq, h₁⟩ := exists_branching? hg hn hone h
    rw [if_pos hone, heq]
    exact exists_unary? hn n.succ_pos h₁
  · obtain rfl : n = 0 := by omega
    rw [if_neg hone]
    refine exists_unary? hn Nat.one_pos (h.congr fun s e _ he => ?_)
    by_cases hrow : e = s + 1
    · subst hrow
      rw [opened, putRow_self (by omega), stage_word, Chart.openCell, if_pos rfl]
    · rw [opened, putRow_of_ne hrow]

/-- The table of a sentence can be filled, and shows its chart. -/
theorem exists_fill? (hg : g.Coherent) (hsmall : g.Small)
    (htokens : ∀ t ∈ tokens, t.toNat < g.terminals.size) :
    ∃ table, fill? g tokens = some table ∧
      table.Shows tokens.length (Chart.ofTerminals g tokens).cell := by
  have hwords : ∃ table,
      (List.range tokens.length).foldlM (lexicalAt? g tokens) (blank tokens.length) = some table ∧
        table.Shows tokens.length
          (putRow (fun _ _ => ∅) 1 tokens.length (Chart.lexicalCell g tokens)) := by
    refine (shows_blank _).exists_foldlM_range fun start hstart table htable => ?_
    exact exists_lexicalAt? hg hsmall htokens hstart (htable.of_cell (putRow_of_le le_rfl))
  obtain ⟨table₁, hlexical, h₁⟩ := hwords
  have hstage : table₁.Shows tokens.length (stage g tokens 0) := by
    refine h₁.congr fun s e hs he => ?_
    by_cases hrow : e = s + 1
    · subst hrow
      rw [putRow_self (by omega), stage_word]
    · rw [putRow_of_ne hrow]
      by_cases hle : e ≤ s
      · rw [stage_of_le hle, Chart.cell_eq_empty (by omega)]
      · rw [stage_of_lt (by omega) hrow]
  have hlengths : ∀ n ≤ tokens.length, ∃ table, (List.range n).foldlM
      (fun table m => table.complete? g tokens.length (m + 1)) table₁ = some table ∧
        table.Shows tokens.length (stage g tokens n) := by
    intro n
    induction n with
    | zero => exact fun _ => ⟨table₁, rfl, hstage⟩
    | succ n ih =>
      intro hn
      obtain ⟨table₂, heq, h₂⟩ := ih (Nat.le_of_succ_le hn)
      obtain ⟨table₃, hlast, h₃⟩ := exists_complete? hg hn h₂
      refine ⟨table₃, ?_, h₃⟩
      rw [List.range_succ, List.foldlM_append, heq]
      simpa using hlast
  obtain ⟨table, heq, htable⟩ := hlengths tokens.length le_rfl
  refine ⟨table, ?_, htable.congr fun s e hs he => stage_of_le (by omega)⟩
  unfold fill?
  rw [hlexical]
  exact heq

end Table

end PhraseStructure
