import Mathlib.Tactic
import PhraseStructure.Proofs.Entries
import PhraseStructure.Proofs.Representation

/-!
# Grammars read with their names and words

Productions are read back with names and words in place of ids. A grammar that was made of rules
gives their alternatives back, and what is said of a grammar by names, such as the categories of a
word and the cycles of unary rules, depends on these alternatives only.
-/

namespace PhraseStructure.Grammar

def written (g : Grammar) : Symbol → WrittenSymbol
  | .terminal t => .word (g.terminalText t)
  | .nonTerminal nt => .name (g.nonTerminalText nt)

def writtenAlternatives (g : Grammar) (nt : SymbolId) : List WrittenAlternative :=
  (g.alternatives nt).map fun p => p.map g.written

/-- The alternatives of the non-terminal with a name; a name that is in no use has none. -/
def writtenNamed (g : Grammar) (name : String) : List WrittenAlternative :=
  match g.nonTerminals.id? name with
  | some nt => g.writtenAlternatives nt
  | none => []

/-- A name leads to the names that are alternatives of it. -/
def NamedStep (g : Grammar) (name child : String) : Prop := [.name child] ∈ g.writtenNamed name

variable {g : Grammar}

theorem written_eq_word {sym : Symbol} {word : String} :
    g.written sym = .word word ↔ ∃ t, sym = .terminal t ∧ g.terminalText t = word := by
  cases sym <;> simp [written]

theorem written_eq_name {sym : Symbol} {name : String} :
    g.written sym = .name name ↔ ∃ nt, sym = .nonTerminal nt ∧ g.nonTerminalText nt = name := by
  cases sym <;> simp [written]

theorem exists_of_mem_writtenNamed {name : String} {a : WrittenAlternative}
    (h : a ∈ g.writtenNamed name) :
    ∃ nt, g.nonTerminals.id? name = some nt ∧ ∃ p ∈ g.alternatives nt, p.map g.written = a := by
  unfold writtenNamed at h
  split at h
  · next nt hid => exact ⟨nt, hid, List.mem_map.mp h⟩
  · cases h

theorem map_written_eq_singleton {p : Production} {s : WrittenSymbol} :
    p.map g.written = [s] ↔ ∃ sym, p = [sym] ∧ g.written sym = s := by
  simp [List.map_eq_singleton_iff]

theorem nonTerminalText_mem {nt : SymbolId} (h : nt.toNat < g.nonTerminals.size) :
    g.nonTerminalText nt ∈ g.nonTerminals.names.toList := by
  have hname := name?_nonTerminalText h
  exact List.mem_iff_getElem?.mpr ⟨nt.toNat, by simpa [SymbolTable.name?] using hname⟩

theorem terminalText_mem {t : SymbolId} (h : t.toNat < g.terminals.size) :
    g.terminalText t ∈ g.terminals.names.toList := by
  have hname := name?_terminalText h
  exact List.mem_iff_getElem?.mpr ⟨t.toNat, by simpa [SymbolTable.name?] using hname⟩

theorem Coherent.mem_names_of_writtenNamed (hg : g.Coherent) {word name : String}
    (h : [.word word] ∈ g.writtenNamed name) : word ∈ g.terminals.names.toList := by
  obtain ⟨nt, -, p, hp, hwritten⟩ := exists_of_mem_writtenNamed h
  obtain ⟨sym, rfl, hsym⟩ := map_written_eq_singleton.mp hwritten
  obtain ⟨t, rfl, rfl⟩ := written_eq_word.mp hsym
  exact terminalText_mem ((hg.admits hp).terminal_lt List.mem_cons_self)

/-- Names and ids of non-terminals determine each other, and unary rules lead to non-terminals of the
grammar. This much can be said of rules with empty alternatives, and of any number of words. -/
structure Identified (g : Grammar) : Prop where
  nonTerminals : g.nonTerminals.Lawful
  size_rules : g.rules.size = g.nonTerminals.size
  size_lt : g.nonTerminals.size < UInt32.size
  child_lt {nt child : SymbolId} : g.UnaryStep nt child → child.toNat < g.rules.size

theorem Coherent.identified (hg : g.Coherent) (hsmall : g.Small) : g.Identified where
  nonTerminals := hg.nonTerminals
  size_rules := hg.size_rules
  size_lt := hsmall.nonTerminals
  child_lt h := (hg.admits h).nonTerminal_lt List.mem_cons_self

namespace Identified

variable (hg : g.Identified)
include hg

theorem id?_nonTerminalText {nt : SymbolId} (h : nt.toNat < g.rules.size) :
    g.nonTerminals.id? (g.nonTerminalText nt) = some nt := by
  rw [hg.nonTerminals.id?_eq_some_iff hg.size_lt.le]
  exact name?_nonTerminalText (hg.size_rules ▸ h)

theorem mem_writtenNamed {name : String} {a : WrittenAlternative} :
    a ∈ g.writtenNamed name ↔
      ∃ nt, g.nonTerminalText nt = name ∧ ∃ p ∈ g.alternatives nt, p.map g.written = a := by
  constructor
  · intro h
    obtain ⟨nt, hid, hp⟩ := exists_of_mem_writtenNamed h
    exact ⟨nt, nonTerminalText_of_id? hg.nonTerminals hg.size_lt hid, hp⟩
  · rintro ⟨nt, rfl, p, hp, rfl⟩
    unfold writtenNamed
    rw [hg.id?_nonTerminalText (lt_size_rules hp)]
    exact List.mem_map_of_mem hp

theorem namedStep_iff {name child : String} :
    g.NamedStep name child ↔ ∃ nt, g.nonTerminalText nt = name ∧
      ∃ nt', g.nonTerminalText nt' = child ∧ g.UnaryStep nt nt' := by
  unfold NamedStep UnaryStep
  simp only [hg.mem_writtenNamed, map_written_eq_singleton, written_eq_name]
  constructor
  · rintro ⟨nt, hname, _, hp, _, rfl, nt', rfl, hchild⟩
    exact ⟨nt, hname, nt', hchild, hp⟩
  · rintro ⟨nt, hname, nt', hchild, hp⟩
    exact ⟨nt, hname, _, hp, _, rfl, nt', rfl, hchild⟩

theorem transGen_namedStep {nt nt' : SymbolId} (h : Relation.TransGen g.UnaryStep nt nt') :
    Relation.TransGen g.NamedStep (g.nonTerminalText nt) (g.nonTerminalText nt') := by
  refine h.lift g.nonTerminalText ?_
  intro a b hstep
  exact hg.namedStep_iff.mpr ⟨a, rfl, b, rfl, hstep⟩

/-- Unary rules form a cycle exactly if they do so among names. -/
theorem exists_cycle_iff :
    (∃ nt, Relation.TransGen g.UnaryStep nt nt) ↔
      ∃ name, Relation.TransGen g.NamedStep name name := by
  constructor
  · rintro ⟨nt, h⟩
    exact ⟨g.nonTerminalText nt, hg.transGen_namedStep h⟩
  · rintro ⟨name, h⟩
    refine ⟨(g.nonTerminals.id? name).getD 0,
      h.lift (fun name => (g.nonTerminals.id? name).getD 0) ?_⟩
    intro a b hstep
    obtain ⟨nt, rfl, nt', rfl, hunary⟩ := hg.namedStep_iff.mp hstep
    simpa [Function.onFun, hg.id?_nonTerminalText (lt_size_rules hunary),
      hg.id?_nonTerminalText (hg.child_lt hunary)] using hunary

/-- The check passes exactly the grammars in which no name leads back to itself. -/
theorem checkUnaryCycles_eq_ok :
    g.checkUnaryCycles = .ok () ↔ ∀ name, ¬Relation.TransGen g.NamedStep name name := by
  rw [← not_exists, ← hg.exists_cycle_iff, not_exists]
  constructor
  · intro h
    obtain ⟨rank, -, hrank⟩ := exists_rank_of_checkUnaryCycles
      (fun hchild => hg.child_lt (g.mem_unaryTargets.mp hchild)) h
    exact acyclic_of_rank hrank
  · exact Grammar.checkUnaryCycles_eq_ok

theorem exists_cycle_of_error {e : GrammarError} (h : g.checkUnaryCycles = .error e) :
    ∃ name, Relation.TransGen g.NamedStep name name ∧ e = .unaryCycle name := by
  obtain ⟨culprit, hcycle, rfl⟩ := transGen_of_checkUnaryCycles h
  exact ⟨_, hg.transGen_namedStep hcycle, rfl⟩

end Identified

namespace Coherent

variable (hg : g.Coherent) (hsmall : g.Small)
include hg hsmall

theorem id?_nonTerminalText {nt : SymbolId} (h : nt.toNat < g.rules.size) :
    g.nonTerminals.id? (g.nonTerminalText nt) = some nt :=
  (hg.identified hsmall).id?_nonTerminalText h

theorem mem_writtenNamed {name : String} {a : WrittenAlternative} :
    a ∈ g.writtenNamed name ↔
      ∃ nt, g.nonTerminalText nt = name ∧ ∃ p ∈ g.alternatives nt, p.map g.written = a :=
  (hg.identified hsmall).mem_writtenNamed

theorem writtenNamed_nonTerminalText {nt : SymbolId} (h : nt.toNat < g.rules.size) :
    g.writtenNamed (g.nonTerminalText nt) = g.writtenAlternatives nt := by
  unfold writtenNamed
  rw [hg.id?_nonTerminalText hsmall h]

theorem writtenNamed_eq_nil {nt : SymbolId} (h : nt.toNat < g.rules.size) :
    g.writtenNamed (g.nonTerminalText nt) = [] ↔ g.alternatives nt = [] := by
  rw [hg.writtenNamed_nonTerminalText hsmall h]
  exact List.map_eq_nil_iff

theorem exists_writtenNamed {word : String} (h : word ∈ g.terminals.names.toList) :
    ∃ name, [.word word] ∈ g.writtenNamed name := by
  obtain ⟨t, ht⟩ := hg.terminals.mem_names_iff.mp h
  obtain ⟨nt, hnt⟩ := List.exists_mem_of_ne_nil _ (hg.lexicon_ne_nil (hg.terminals.toNat_lt ht))
  rw [hg.mem_lexicon] at hnt
  refine ⟨g.nonTerminalText nt, (hg.mem_writtenNamed hsmall).mpr ⟨nt, rfl, _, hnt, ?_⟩⟩
  simp [written, hg.terminalText_of_id? hsmall ht]

theorem mem_names_categories {word name : String} :
    name ∈ (g.categories word).map g.nonTerminalText ↔ [.word word] ∈ g.writtenNamed name := by
  simp only [List.mem_map, hg.mem_writtenNamed hsmall, hg.mem_categories_iff hsmall, mem_wordsOf,
    map_written_eq_singleton, written_eq_word]
  constructor
  · rintro ⟨nt, ⟨t, ht, hword⟩, rfl⟩
    refine ⟨nt, rfl, _, ht, _, rfl, t, rfl, ?_⟩
    rw [terminalText, hword, Option.getD_some]
  · rintro ⟨nt, rfl, _, hp, _, rfl, t, rfl, rfl⟩
    exact ⟨nt, ⟨t, hp, name?_terminalText ((hg.admits hp).terminal_lt (by simp))⟩, rfl⟩

end Coherent

theorem exists_name_of_denotes {a : WrittenAlternative} {nt : SymbolId}
    (h : List.Forall₂ g.Denotes a [.nonTerminal nt]) :
    ∃ name, a = [.name name] ∧ g.nonTerminals.id? name = some nt := by
  obtain ⟨s, rest, hs, hrest, rfl⟩ := List.forall₂_cons_right_iff.mp h
  obtain ⟨name, rfl, hid⟩ := hs.exists_name
  exact ⟨name, by rw [List.forall₂_nil_right_iff.mp hrest], hid⟩

theorem exists_id_of_denotes {name : String} {p : Production}
    (h : List.Forall₂ g.Denotes [.name name] p) :
    ∃ nt, p = [.nonTerminal nt] ∧ g.nonTerminals.id? name = some nt := by
  obtain ⟨sym, rest, hsym, hrest, rfl⟩ := List.forall₂_cons_left_iff.mp h
  cases sym with
  | terminal t => exact hsym.elim
  | nonTerminal nt => exact ⟨nt, by rw [List.forall₂_nil_left_iff.mp hrest], hsym⟩

namespace Transcribes

variable {rules : List WrittenRule} (hg : g.Transcribes rules)
include hg

theorem alternativesOf_of_id?_eq_none {name : String} (h : g.nonTerminals.id? name = none) :
    alternativesOf rules name = [] := by
  rw [List.eq_nil_iff_forall_not_mem]
  intro a ha
  obtain ⟨id, hlhs⟩ := hg.defined (mem_alternativesOf.mp ha)
  simp [h] at hlhs

theorem exists_name_of_mem {nt child : SymbolId} {p : Production} (hp : p ∈ g.alternatives nt)
    (hchild : .nonTerminal child ∈ p) : ∃ name, g.nonTerminals.id? name = some child := by
  obtain ⟨name, hname⟩ : ∃ name, g.nonTerminals.name? nt = some name :=
    ⟨_, name?_nonTerminalText (hg.size_rules ▸ lt_size_rules hp)⟩
  have hid := (hg.nonTerminals.id?_eq_some_iff hg.size_lt.le).mpr hname
  obtain ⟨a, -, ha⟩ := (hg.alternatives hid).exists_of_mem hp
  obtain ⟨s, -, hs⟩ := ha.exists_of_mem hchild
  obtain ⟨name, -, hname⟩ := hs.exists_name
  exact ⟨name, hname⟩

theorem identified : g.Identified where
  nonTerminals := hg.nonTerminals
  size_rules := hg.size_rules
  size_lt := hg.size_lt
  child_lt h := by
    obtain ⟨name, hid⟩ := hg.exists_name_of_mem h List.mem_cons_self
    exact hg.size_rules ▸ hg.nonTerminals.toNat_lt hid

theorem namedStep_iff {name child : String} :
    g.NamedStep name child ↔ [.name child] ∈ alternativesOf rules name := by
  unfold NamedStep
  constructor
  · intro h
    obtain ⟨nt, hid, p, hp, hwritten⟩ := exists_of_mem_writtenNamed h
    obtain ⟨sym, rfl, hsym⟩ := map_written_eq_singleton.mp hwritten
    obtain ⟨nt', rfl, rfl⟩ := written_eq_name.mp hsym
    obtain ⟨a, ha, hdenotes⟩ := (hg.alternatives hid).exists_of_mem hp
    obtain ⟨child, rfl, hchild⟩ := exists_name_of_denotes hdenotes
    rwa [nonTerminalText_of_id? hg.nonTerminals hg.size_lt hchild]
  · intro h
    obtain ⟨nt, hid⟩ := hg.defined (mem_alternativesOf.mp h)
    obtain ⟨p, hp, hdenotes⟩ := (hg.alternatives hid).flip.exists_of_mem h
    obtain ⟨nt', rfl, hchild⟩ := exists_id_of_denotes hdenotes
    unfold Grammar.writtenNamed
    rw [hid]
    refine List.mem_map.mpr ⟨_, hp, ?_⟩
    simp [written, nonTerminalText_of_id? hg.nonTerminals hg.size_lt hchild]

theorem written_of_denotes (hsmall : g.Small) {s : WrittenSymbol} {sym : Symbol}
    (h : g.Denotes s sym) : g.written sym = s := by
  cases s <;> cases sym <;> simp only [Denotes] at h
  · rw [written, terminalText_of_id? hg.terminals hsmall.terminals h]
  · rw [written, nonTerminalText_of_id? hg.nonTerminals hsmall.nonTerminals h]

/-- A grammar that is made of rules gives their alternatives back. -/
theorem writtenNamed (hsmall : g.Small) (name : String) :
    g.writtenNamed name = alternativesOf rules name := by
  unfold Grammar.writtenNamed
  split
  · next nt hid =>
    have hback : ∀ a p, List.Forall₂ g.Denotes a p → a = p.map g.written := by
      intro a p h
      rw [← List.forall₂_eq_eq_eq, List.forall₂_map_right_iff]
      exact h.imp fun _ _ hs => (hg.written_of_denotes hsmall hs).symm
    symm
    unfold writtenAlternatives
    rw [← List.forall₂_eq_eq_eq, List.forall₂_map_right_iff]
    exact (hg.alternatives hid).imp hback
  · next hid => exact (hg.alternativesOf_of_id?_eq_none hid).symm

end Transcribes

end PhraseStructure.Grammar
