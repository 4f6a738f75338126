import Mathlib.Tactic
import PhraseStructure.Grammar.Display
import PhraseStructure.Proofs.WellFormed

/-!
# The representation of a grammar

What can be relied on in any grammar that a loader accepts, and that still holds after the choice of
another start symbol: every id that occurs is in use, each table gives ids and names both ways, the
lexicon and the alternatives agree about words, and no unary rules lead from a non-terminal back to
it.
-/

namespace PhraseStructure

/-- Ids and names determine each other, and the ids in use are those below the number of names. -/
structure SymbolTable.Bijective (t : SymbolTable) : Prop where
  id?_eq_some_iff (name : String) (id : SymbolId) : t.id? name = some id ↔ t.name? id = some name
  nodup : t.names.toList.Nodup
  lt_size_iff (id : SymbolId) : id.toNat < t.size ↔ ∃ name, t.name? id = some name
  mem_names_iff (name : String) : name ∈ t.names ↔ ∃ id, t.id? name = some id

/-- Ids and names determine each other exactly if there are no more names than ids. The first name
for which there is no new id would share that of the first name. -/
theorem SymbolTable.Lawful.bijective_iff {t : SymbolTable} (ht : t.Lawful) :
    t.Bijective ↔ t.size ≤ UInt32.size := by
  constructor
  · intro hbijective
    by_contra! hsize
    have hpos : 0 < t.names.size := (show 0 < UInt32.size by decide).trans hsize
    have hfirst : t.id? t.names[0] = some 0 :=
      ht.id?_eq_some.mpr ⟨0, Array.getElem?_eq_getElem hpos, rfl⟩
    have hlast : t.id? t.names[UInt32.size] = some 0 :=
      ht.id?_eq_some.mpr ⟨UInt32.size, Array.getElem?_eq_getElem hsize, rfl⟩
    have hsame : t.names[0] = t.names[UInt32.size] := by
      rw [hbijective.id?_eq_some_iff] at hfirst hlast
      exact Option.some.inj (hfirst.symm.trans hlast)
    have hplace : 0 = UInt32.size := ht.nodup.getElem_inj_iff.mp hsame
    exact absurd hplace (by decide)
  · intro hsize
    refine ⟨fun _ _ => ht.id?_eq_some_iff hsize, ht.nodup, ?_, ?_⟩
    · intro id
      unfold name? size
      rw [← Option.isSome_iff_exists]
      simp
    · intro name
      rw [← ht.mem_names_iff, Array.mem_toList_iff]

theorem SymbolTable.Lawful.bijective {t : SymbolTable} (ht : t.Lawful)
    (hsize : t.size < UInt32.size) : t.Bijective :=
  ht.bijective_iff.mpr hsize.le

namespace Grammar

def UnaryStep (g : Grammar) (nt child : SymbolId) : Prop := [.nonTerminal child] ∈ g.alternatives nt

structure Represented (g : Grammar) : Prop where
  size_rules : g.rules.size = g.nonTerminals.size
  start_lt : g.start.toNat < g.nonTerminals.size
  nonTerminals : g.nonTerminals.Bijective
  terminals : g.terminals.Bijective
  alternative (nt : SymbolId) (p : Production) : p ∈ g.alternatives nt →
    (∃ t : SymbolId, p = [.terminal t] ∧ t.toNat < g.terminals.size) ∨
      p ≠ [] ∧ ∀ s ∈ p, ∃ child : SymbolId, s = .nonTerminal child ∧
        child.toNat < g.nonTerminals.size
  exists_rule (t : SymbolId) : t.toNat < g.terminals.size →
    ∃ nt, [.terminal t] ∈ g.alternatives nt
  mem_categories_iff (nt : SymbolId) (word : String) :
    nt ∈ g.categories word ↔ word ∈ g.wordsOf nt
  nodup_categories (word : String) : (g.categories word).Nodup
  acyclic (nt : SymbolId) : ¬Relation.TransGen g.UnaryStep nt nt

variable {g : Grammar}

theorem name?_nonTerminalText {nt : SymbolId} (h : nt.toNat < g.nonTerminals.size) :
    g.nonTerminals.name? nt = some (g.nonTerminalText nt) := by
  have hname : g.nonTerminals.name? nt = some g.nonTerminals.names[nt.toNat] :=
    Array.getElem?_eq_getElem h
  rw [nonTerminalText, hname, Option.getD_some]

theorem name?_terminalText {t : SymbolId} (h : t.toNat < g.terminals.size) :
    g.terminals.name? t = some (g.terminalText t) := by
  have hname : g.terminals.name? t = some g.terminals.names[t.toNat] :=
    Array.getElem?_eq_getElem h
  rw [terminalText, hname, Option.getD_some]

theorem nonTerminalText_of_id? (ht : g.nonTerminals.Lawful)
    (hsize : g.nonTerminals.size < UInt32.size) {name : String} {nt : SymbolId}
    (h : g.nonTerminals.id? name = some nt) : g.nonTerminalText nt = name := by
  rw [nonTerminalText, (ht.id?_eq_some_iff hsize.le).mp h, Option.getD_some]

theorem terminalText_of_id? (ht : g.terminals.Lawful) (hsize : g.terminals.size < UInt32.size)
    {word : String} {t : SymbolId} (h : g.terminals.id? word = some t) :
    g.terminalText t = word := by
  rw [terminalText, (ht.id?_eq_some_iff hsize.le).mp h, Option.getD_some]

theorem Coherent.nonTerminalText_of_id? (hg : g.Coherent) (hsmall : g.Small) {name : String}
    {nt : SymbolId} (h : g.nonTerminals.id? name = some nt) : g.nonTerminalText nt = name :=
  Grammar.nonTerminalText_of_id? hg.nonTerminals hsmall.nonTerminals h

theorem Coherent.terminalText_of_id? (hg : g.Coherent) (hsmall : g.Small) {word : String}
    {t : SymbolId} (h : g.terminals.id? word = some t) : g.terminalText t = word :=
  Grammar.terminalText_of_id? hg.terminals hsmall.terminals h

theorem Coherent.mem_categories_iff (hg : g.Coherent) (hsmall : g.Small) {nt : SymbolId}
    {word : String} : nt ∈ g.categories word ↔ word ∈ g.wordsOf nt := by
  rw [mem_wordsOf]
  unfold categories
  constructor
  · intro h
    split at h
    · next t hid =>
      exact ⟨t, hg.mem_lexicon.mp h, (hg.terminals.id?_eq_some_iff hsmall.terminals.le).mp hid⟩
    · exact absurd h List.not_mem_nil
  · rintro ⟨t, hrule, hname⟩
    rw [(hg.terminals.id?_eq_some_iff hsmall.terminals.le).mpr hname]
    exact hg.mem_lexicon.mpr hrule

theorem Coherent.nodup_categories (hg : g.Coherent) (word : String) :
    (g.categories word).Nodup := by
  unfold categories
  split
  · exact hg.nodup_lexicon _
  · exact List.nodup_nil

theorem acyclic_of_rank {rank : SymbolId → Nat}
    (hrank : ∀ nt, ∀ child ∈ g.unaryTargets nt, rank child < rank nt) (nt : SymbolId) :
    ¬Relation.TransGen g.UnaryStep nt nt := by
  have hfall : ∀ a b, Relation.TransGen g.UnaryStep a b → rank b < rank a := by
    intro a b h
    induction h with
    | single hstep => exact hrank a _ (g.mem_unaryTargets.mpr hstep)
    | tail _ hstep ih => exact (hrank _ _ (g.mem_unaryTargets.mpr hstep)).trans ih
  exact fun h => lt_irrefl _ (hfall nt nt h)

theorem WellFormed.acyclic (hg : g.WellFormed) (nt : SymbolId) :
    ¬Relation.TransGen g.UnaryStep nt nt := by
  obtain ⟨rank, -, hrank⟩ := hg.exists_rank
  exact acyclic_of_rank hrank nt

theorem transGen_of_checkUnaryCycles {e : GrammarError} (h : g.checkUnaryCycles = .error e) :
    ∃ culprit, Relation.TransGen g.UnaryStep culprit culprit ∧
      e = .unaryCycle (g.nonTerminalText culprit) := by
  unfold checkUnaryCycles unaryCycle? at h
  cases hsearch : UnaryCycle.searchAll g.unaryTargets g.nonTerminalIds with
  | ok done => simp [hsearch] at h
  | error culprit =>
    have hcycle := UnaryCycle.transGen_of_searchAll hsearch
    simp only [mem_unaryTargets] at hcycle
    exact ⟨culprit, hcycle, by simpa [hsearch] using h.symm⟩

theorem checkUnaryCycles_eq_ok (h : ∀ nt, ¬Relation.TransGen g.UnaryStep nt nt) :
    g.checkUnaryCycles = .ok () := by
  cases hcheck : g.checkUnaryCycles with
  | ok => rfl
  | error e =>
    obtain ⟨culprit, hcycle, -⟩ := transGen_of_checkUnaryCycles hcheck
    exact absurd hcycle (h culprit)

theorem represented_of_loaded (hloaded : g.Loaded) (hsmall : g.Small) : g.Represented := by
  have hg := hloaded.wellFormed
  refine ⟨hg.size_rules, hg.size_rules ▸ hg.start_lt, hg.nonTerminals.bijective hsmall.nonTerminals,
    hg.terminals.bijective hsmall.terminals, ?_, ?_, fun _ _ => hg.mem_categories_iff hsmall,
    hg.nodup_categories, hg.acyclic⟩
  · intro nt p hp
    rcases hg.admits hp with ⟨t, rfl, ht⟩ | ⟨nts, hne, rfl, hnts⟩
    · exact Or.inl ⟨t, rfl, ht⟩
    · refine Or.inr ⟨by simpa using hne, ?_⟩
      intro s hs
      obtain ⟨child, hchild, rfl⟩ := List.mem_map.mp hs
      exact ⟨child, rfl, hg.size_rules ▸ hnts child hchild⟩
  · intro t ht
    obtain ⟨nt, hnt⟩ := List.exists_mem_of_ne_nil _ (hg.lexicon_ne_nil ht)
    exact ⟨nt, hg.mem_lexicon.mp hnt⟩

/-- The bracketings, read from another start symbol. -/
theorem represented_phrases :
    ∃ g, bracketings.withStart "N" = .ok g ∧ g.startName? = some "N" ∧ g.Represented := by
  have hid : bracketings.definedId "N" = .ok 1 := by decide +kernel
  have hstart : bracketings.withStart "N" = .ok { bracketings with start := 1 } :=
    bracketings.withStart_eq_ok.mpr ⟨1, hid, rfl⟩
  refine ⟨_, hstart, by decide +kernel, ?_⟩
  exact represented_of_loaded (loaded_bracketings.withStart hstart)
    ⟨small_bracketings.nonTerminals, small_bracketings.terminals⟩

end Grammar

end PhraseStructure
