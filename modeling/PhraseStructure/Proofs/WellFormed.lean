import Mathlib.Tactic
import PhraseStructure.Grammar.File
import PhraseStructure.Proofs.RuleText
import PhraseStructure.Proofs.SymbolTable
import PhraseStructure.Proofs.UnaryCycle

/-!
# Well-formed grammars

All that a grammar refers to exists, the lexicon and the alternatives say the same about words, and
unary rules lead downwards in some ranking. Each step of reading rule entries keeps this, and so do
the loaders, which have no empty alternative to add. Nothing here depends on the number of names:
ids that have wrapped are still in use.
-/

namespace PhraseStructure

namespace Grammar

/-- An alternative is one word, or non-terminals of the grammar, at least one of them. -/
def Admits (g : Grammar) (p : Production) : Prop :=
  (∃ t : SymbolId, p = [.terminal t] ∧ t.toNat < g.terminals.size) ∨
    ∃ nts : List SymbolId, nts ≠ [] ∧ p = nts.map .nonTerminal ∧ ∀ nt ∈ nts, nt.toNat < g.rules.size

/-- The parts of a grammar agree with each other. -/
structure Coherent (g : Grammar) : Prop where
  nonTerminals : g.nonTerminals.Lawful
  terminals : g.terminals.Lawful
  size_rules : g.rules.size = g.nonTerminals.size
  start_lt : g.start.toNat < g.rules.size
  admits {nt : SymbolId} {p : Production} : p ∈ g.alternatives nt → g.Admits p
  nodup_lexicon (t : SymbolId) : (g.lexicon.get t).Nodup
  mem_lexicon {t nt : SymbolId} : nt ∈ g.lexicon.get t ↔ [.terminal t] ∈ g.alternatives nt
  lexicon_ne_nil {t : SymbolId} : t.toNat < g.terminals.size → g.lexicon.get t ≠ []

/-- A coherent grammar without unary cycles: its non-terminals can be ranked, by numbers below
their own number, so that unary rules lead to lower ranks. -/
structure WellFormed (g : Grammar) : Prop extends g.Coherent where
  exists_rank : ∃ rank : SymbolId → Nat,
    (∀ nt : SymbolId, nt.toNat < g.rules.size → rank nt < g.rules.size) ∧
      ∀ nt, ∀ child ∈ g.unaryTargets nt, rank child < rank nt

theorem Admits.ne_nil {g : Grammar} {p : Production} (h : g.Admits p) : p ≠ [] := by
  rcases h with ⟨t, rfl, -⟩ | ⟨nts, hne, rfl, -⟩
  · exact List.cons_ne_nil _ _
  · simpa using hne

theorem Admits.terminal_lt {g : Grammar} {p : Production} (h : g.Admits p) {t : SymbolId}
    (ht : .terminal t ∈ p) : t.toNat < g.terminals.size := by
  rcases h with ⟨t', rfl, hlt⟩ | ⟨nts, -, rfl, -⟩
  · simp_all
  · simp at ht

theorem Admits.nonTerminal_lt {g : Grammar} {p : Production} (h : g.Admits p) {nt : SymbolId}
    (hnt : .nonTerminal nt ∈ p) : nt.toNat < g.rules.size := by
  rcases h with ⟨t, rfl, -⟩ | ⟨nts, -, rfl, hlt⟩
  · simp at hnt
  · exact hlt nt (by simpa using hnt)

theorem Admits.mono {g g' : Grammar} {p : Production} (h : g.Admits p)
    (hterminals : g.terminals.size ≤ g'.terminals.size) (hrules : g.rules.size = g'.rules.size) :
    g'.Admits p := by
  rcases h with ⟨t, rfl, ht⟩ | ⟨nts, hne, rfl, hnts⟩
  · exact Or.inl ⟨t, rfl, ht.trans_le hterminals⟩
  · exact Or.inr ⟨nts, hne, rfl, fun nt hnt => hrules ▸ hnts nt hnt⟩

theorem lt_size_rules {g : Grammar} {nt : SymbolId} {p : Production} (h : p ∈ g.alternatives nt) :
    nt.toNat < g.rules.size := by
  by_contra hge
  simp [alternatives, Nat.not_lt.mp hge] at h

theorem mem_nonTerminalIds {g : Grammar} {nt : SymbolId} (h : nt.toNat < g.rules.size) :
    nt ∈ g.nonTerminalIds :=
  List.mem_map.mpr ⟨nt.toNat, List.mem_range.mpr h, UInt32.ofNat_toNat⟩

@[simp] theorem size_rules_addAlternative (g : Grammar) (lhs : SymbolId) (p : Production) :
    (g.addAlternative lhs p).rules.size = g.rules.size := Array.size_modify

theorem mem_alternatives_addAlternative {g : Grammar} {lhs nt : SymbolId} {p q : Production}
    (hlhs : lhs.toNat < g.rules.size) :
    q ∈ (g.addAlternative lhs p).alternatives nt ↔ q ∈ g.alternatives nt ∨ lhs = nt ∧ q = p := by
  rw [alternatives_addAlternative]
  split_ifs with h
  · simp [h.1]
  · have hne : lhs ≠ nt := fun he => h ⟨he, hlhs⟩
    simp [hne]

theorem get_lexicon_addCategory (g : Grammar) (t lhs k : SymbolId) :
    (g.addCategory t lhs).lexicon.get k =
      if t = k ∧ lhs ∉ g.lexicon.get t then g.lexicon.get t ++ [lhs] else g.lexicon.get k := by
  unfold addCategory
  split_ifs with hmem h h
  · exact absurd hmem h.2
  · rfl
  · rw [Multimap.get_append, if_pos h.1]
  · rw [Multimap.get_append, if_neg fun he => h ⟨he, hmem⟩]

theorem mem_lexicon_addCategory {g : Grammar} {t lhs k nt : SymbolId} :
    nt ∈ (g.addCategory t lhs).lexicon.get k ↔ nt ∈ g.lexicon.get k ∨ t = k ∧ nt = lhs := by
  rw [get_lexicon_addCategory]
  split_ifs with h
  · simp [h.1]
  · constructor
    · exact Or.inl
    · rintro (hmem | ⟨rfl, rfl⟩)
      · exact hmem
      · by_contra hnew
        exact h ⟨rfl, hnew⟩

theorem nodup_lexicon_addCategory {g : Grammar} {t lhs : SymbolId}
    (h : ∀ k, (g.lexicon.get k).Nodup) (k : SymbolId) :
    ((g.addCategory t lhs).lexicon.get k).Nodup := by
  rw [get_lexicon_addCategory]
  split_ifs with hk
  · rw [List.nodup_append]
    refine ⟨h t, List.nodup_singleton _, ?_⟩
    rintro a ha b hb rfl
    rw [List.mem_singleton] at hb
    exact hk.2 (hb ▸ ha)
  · exact h k

theorem addWord_eq (g : Grammar) (lhs : SymbolId) (word : String) :
    g.addWord lhs word =
      ({ g with
          terminals := (g.terminals.intern word).2
          lexicon := (g.addCategory (g.terminals.intern word).1 lhs).lexicon } :
        Grammar).addAlternative lhs [.terminal (g.terminals.intern word).1] := by
  unfold addWord addCategory
  dsimp only
  split_ifs <;> rfl

@[simp] theorem terminals_addWord (g : Grammar) (lhs : SymbolId) (word : String) :
    (g.addWord lhs word).terminals = (g.terminals.intern word).2 := by
  rw [addWord_eq]
  rfl

@[simp] theorem nonTerminals_addWord (g : Grammar) (lhs : SymbolId) (word : String) :
    (g.addWord lhs word).nonTerminals = g.nonTerminals := by
  rw [addWord_eq]
  rfl

@[simp] theorem start_addWord (g : Grammar) (lhs : SymbolId) (word : String) :
    (g.addWord lhs word).start = g.start := by
  rw [addWord_eq]
  rfl

@[simp] theorem size_rules_addWord (g : Grammar) (lhs : SymbolId) (word : String) :
    (g.addWord lhs word).rules.size = g.rules.size := by
  rw [addWord_eq, size_rules_addAlternative]

theorem mem_alternatives_addWord {g : Grammar} {lhs nt : SymbolId} {word : String} {p : Production}
    (hlhs : lhs.toNat < g.rules.size) :
    p ∈ (g.addWord lhs word).alternatives nt ↔
      p ∈ g.alternatives nt ∨ lhs = nt ∧ p = [.terminal (g.terminals.intern word).1] := by
  rw [addWord_eq, mem_alternatives_addAlternative (by exact hlhs)]
  rfl

theorem mem_lexicon_addWord {g : Grammar} {lhs t nt : SymbolId} {word : String} :
    nt ∈ (g.addWord lhs word).lexicon.get t ↔
      nt ∈ g.lexicon.get t ∨ (g.terminals.intern word).1 = t ∧ nt = lhs := by
  rw [addWord_eq]
  exact mem_lexicon_addCategory

namespace Coherent

variable {g : Grammar} (hg : g.Coherent)
include hg

theorem lhs_lt (lhs : String) : ((g.nonTerminals.id? lhs).getD 0).toNat < g.rules.size := by
  cases h : g.nonTerminals.id? lhs with
  | none => exact (Nat.zero_le _).trans_lt hg.start_lt
  | some id => exact hg.size_rules ▸ hg.nonTerminals.toNat_lt h

theorem addSequence {lhs : SymbolId} (hlhs : lhs.toNat < g.rules.size) {nts : List SymbolId}
    (hne : nts ≠ []) (hnts : ∀ nt ∈ nts, nt.toNat < g.rules.size) :
    (g.addAlternative lhs (nts.map .nonTerminal)).Coherent where
  nonTerminals := hg.nonTerminals
  terminals := hg.terminals
  size_rules := by rw [size_rules_addAlternative]; exact hg.size_rules
  start_lt := by rw [size_rules_addAlternative]; exact hg.start_lt
  admits := by
    intro nt p hp
    rcases (mem_alternatives_addAlternative hlhs).mp hp with hp | ⟨-, rfl⟩
    · exact (hg.admits hp).mono le_rfl (size_rules_addAlternative ..).symm
    · exact Or.inr ⟨nts, hne, rfl, fun nt hnt => by simpa using hnts nt hnt⟩
  nodup_lexicon := hg.nodup_lexicon
  mem_lexicon := by
    intro t nt
    have hword : [Symbol.terminal t] ≠ nts.map .nonTerminal := by
      cases nts <;> simp
    rw [mem_alternatives_addAlternative hlhs]
    simp only [hword, and_false, or_false]
    exact hg.mem_lexicon
  lexicon_ne_nil := hg.lexicon_ne_nil

theorem addWord {lhs : SymbolId} (hlhs : lhs.toNat < g.rules.size) (word : String) :
    (g.addWord lhs word).Coherent := by
  refine ⟨by simpa using hg.nonTerminals, by simpa using hg.terminals.intern word,
    by simpa using hg.size_rules, by simpa using hg.start_lt, ?_,
    ?_, ?_, ?_⟩
  · intro nt p hp
    rcases (mem_alternatives_addWord hlhs).mp hp with hp | ⟨-, rfl⟩
    · exact (hg.admits hp).mono (by simpa using g.terminals.size_le_size_intern word) (by simp)
    · refine Or.inl ⟨_, rfl, ?_⟩
      rw [terminals_addWord]
      exact (hg.terminals.intern word).toNat_lt (g.terminals.id?_intern_self word)
  · rw [addWord_eq]
    exact nodup_lexicon_addCategory hg.nodup_lexicon
  · intro t nt
    rw [mem_lexicon_addWord, mem_alternatives_addWord hlhs, hg.mem_lexicon]
    simp only [List.cons.injEq, Symbol.terminal.injEq, and_true]
    rw [and_comm, eq_comm, @eq_comm _ _ t]
  · intro t ht
    by_cases hold : t.toNat < g.terminals.size
    · obtain ⟨nt, hnt⟩ := List.exists_mem_of_ne_nil _ (hg.lexicon_ne_nil hold)
      exact List.ne_nil_of_mem (mem_lexicon_addWord.mpr (Or.inl hnt))
    · rw [terminals_addWord, SymbolTable.size_intern] at ht
      split_ifs at ht with hid
      · have hnew : g.terminals.size = t.toNat := by omega
        have hfst : (g.terminals.intern word).1 = t := by
          rw [SymbolTable.intern_fst_of_id? hid, hnew, UInt32.ofNat_toNat]
        exact List.ne_nil_of_mem (mem_lexicon_addWord.mpr (Or.inr ⟨hfst, rfl⟩))
      · exact absurd ht hold

theorem exists_names_of_resolve {lhs : String} {symbols : List WrittenSymbol} {p : Production}
    (h : symbols.mapM (g.resolve lhs) = .ok p) :
    ∃ nts : List SymbolId, p = nts.map .nonTerminal ∧ ∀ nt ∈ nts, nt.toNat < g.rules.size := by
  rw [Except.mapM_eq_ok] at h
  induction h with
  | nil => exact ⟨[], rfl, by simp⟩
  | @cons s sym _ _ hs _ ih =>
    obtain ⟨nts, rfl, hnts⟩ := ih
    cases s with
    | word w => cases hs
    | name name =>
      cases hid : g.nonTerminals.id? name with
      | none => simp [resolve, hid] at hs
      | some id =>
        obtain rfl : .nonTerminal id = sym := by simpa [resolve, hid] using hs
        refine ⟨id :: nts, rfl, List.forall_mem_cons.mpr ⟨?_, hnts⟩⟩
        exact hg.size_rules ▸ hg.nonTerminals.toNat_lt hid

theorem addWritten {lhs : String} {alternative : WrittenAlternative} {g' : Grammar}
    (hne : alternative ≠ []) (h : g.addWritten lhs alternative = .ok g') : g'.Coherent := by
  unfold Grammar.addWritten at h
  split at h
  · obtain rfl := Except.ok.inj h
    exact hg.addWord (hg.lhs_lt lhs) _
  · obtain ⟨p, hp, h⟩ := Except.bind_eq_ok.mp h
    obtain rfl := Except.ok.inj h
    obtain ⟨nts, rfl, hnts⟩ := hg.exists_names_of_resolve hp
    refine hg.addSequence (hg.lhs_lt lhs) ?_ hnts
    rintro rfl
    exact hne (List.forall₂_nil_right_iff.mp (Except.mapM_eq_ok.mp hp))

theorem addEntry {entry : Entry} {g' : Grammar} (hne : [] ∉ entry.alternatives)
    (h : g.addEntry entry = .ok g') : g'.Coherent := by
  refine Except.foldlM_invariant (P := Coherent) ?_ hg h
  intro s s' alternative hmem hs hstep
  exact hs.addWritten (ne_of_mem_of_not_mem hmem hne) hstep

end Coherent

@[simp] theorem alternatives_ofLeftHandSides (name : String) (entries : List Entry)
    (nt : SymbolId) : (ofLeftHandSides name entries).alternatives nt = [] := by
  unfold alternatives ofLeftHandSides
  simp only [Array.getElem?_replicate]
  split_ifs <;> rfl

theorem coherent_ofLeftHandSides (name : String) {entries : List Entry} (hne : entries ≠ []) :
    (ofLeftHandSides name entries).Coherent := by
  have hlawful := SymbolTable.lawful_empty.internAll (entries.map Entry.lhs)
  refine ⟨hlawful, SymbolTable.lawful_empty, Array.size_replicate, ?_, ?_, ?_, ?_, ?_⟩
  · have hpos : 0 < ((∅ : SymbolTable).internAll (entries.map Entry.lhs)).size :=
      SymbolTable.size_internAll_pos (by simpa using hne)
    simpa [ofLeftHandSides] using hpos
  · intro nt p hp
    simp at hp
  · intro t
    exact List.nodup_nil
  · intro t nt
    rw [alternatives_ofLeftHandSides]
    simp [ofLeftHandSides]
  · intro t ht
    exact absurd ht (Nat.not_lt_zero _)

/-- If the check passes, unary rules lead to lower ranks. -/
theorem exists_rank_of_checkUnaryCycles {g : Grammar}
    (htarget : ∀ {nt child}, child ∈ g.unaryTargets nt → child.toNat < g.rules.size)
    (h : g.checkUnaryCycles = .ok ()) :
    ∃ rank : SymbolId → Nat, (∀ nt : SymbolId, nt.toNat < g.rules.size → rank nt < g.rules.size) ∧
      ∀ nt, ∀ child ∈ g.unaryTargets nt, rank child < rank nt := by
  have hids : ∀ {nt : SymbolId}, nt.toNat < g.rules.size → nt ∈ g.nonTerminalIds :=
    mem_nonTerminalIds
  unfold checkUnaryCycles unaryCycle? at h
  split at h
  · next hcycle =>
    split at hcycle
    · next done hdone =>
      obtain ⟨rank, hrank⟩ := UnaryCycle.exists_rank_of_searchAll
        (fun nt _ child hchild => hids (htarget hchild)) hdone
      refine ⟨rank, ?_, ?_⟩
      · intro nt hnt
        simpa [nonTerminalIds] using (hrank nt (hids hnt)).1
      · intro nt child hchild
        have hnt := lt_size_rules ((g.mem_unaryTargets).mp hchild)
        exact (hrank nt (hids hnt)).2 child hchild
    · cases hcycle
  · cases h

theorem Coherent.lt_of_mem_unaryTargets {g : Grammar} (hg : g.Coherent) {nt child : SymbolId}
    (h : child ∈ g.unaryTargets nt) : child.toNat < g.rules.size :=
  (hg.admits (g.mem_unaryTargets.mp h)).nonTerminal_lt List.mem_cons_self

theorem Coherent.wellFormed {g : Grammar} (hg : g.Coherent) (h : g.checkUnaryCycles = .ok ()) :
    g.WellFormed :=
  { hg with exists_rank := exists_rank_of_checkUnaryCycles hg.lt_of_mem_unaryTargets h }

theorem alternatives_ne_nil_of_definedId {g : Grammar} {name : String} {id : SymbolId}
    (h : g.definedId name = .ok id) : g.alternatives id ≠ [] := by
  unfold definedId at h
  split at h
  · split_ifs at h with hempty
    obtain rfl := Except.ok.inj h
    exact fun hnil => hempty (List.isEmpty_iff.mpr hnil)
  · cases h

theorem lt_size_rules_of_definedId {g : Grammar} {name : String} {id : SymbolId}
    (h : g.definedId name = .ok id) : id.toNat < g.rules.size := by
  obtain ⟨p, hp⟩ := List.exists_mem_of_ne_nil _ (alternatives_ne_nil_of_definedId h)
  exact lt_size_rules hp

theorem Coherent.withStart {g g' : Grammar} (hg : g.Coherent) {name : String}
    (h : g.withStart name = .ok g') : g'.Coherent := by
  obtain ⟨id, hid, rfl⟩ := g.withStart_eq_ok.mp h
  exact { hg with start_lt := lt_size_rules_of_definedId hid }

theorem WellFormed.withStart {g g' : Grammar} (hg : g.WellFormed) {name : String}
    (h : g.withStart name = .ok g') : g'.WellFormed := by
  have hcoherent := hg.toCoherent.withStart h
  obtain ⟨id, -, rfl⟩ := g.withStart_eq_ok.mp h
  exact { hcoherent with exists_rank := hg.exists_rank }

def unchecked (name : String) (start? : Option String) (entries : List Entry) :
    Except GrammarError Grammar :=
  if entries.isEmpty then .error .empty
  else do
    let g ← entries.foldlM addEntry (ofLeftHandSides name entries)
    match start? with
    | some start => g.withStart start
    | none => pure g

theorem ofEntries_eq (name : String) (start? : Option String) (entries : List Entry) :
    ofEntries name start? entries =
      unchecked name start? entries >>= fun g => g.checkUnaryCycles.map fun _ => g := by
  unfold ofEntries unchecked
  split_ifs
  · rfl
  · rw [bind_assoc]
    refine bind_congr fun g => ?_
    cases start? with
    | some start => rfl
    | none => rfl

theorem unchecked_eq_ok {name : String} {start? : Option String} {entries : List Entry}
    {g : Grammar} :
    unchecked name start? entries = .ok g ↔
      entries ≠ [] ∧ ∃ g₁, entries.foldlM addEntry (ofLeftHandSides name entries) = .ok g₁ ∧
        (match start? with
          | some start => g₁.withStart start
          | none => .ok g₁) = .ok g := by
  unfold unchecked
  split_ifs with hempty
  · simp [List.isEmpty_iff.mp hempty]
  · have hne : entries ≠ [] := fun he => hempty (List.isEmpty_iff.mpr he)
    simp only [Except.bind_eq_ok, hne, ne_eq, not_false_eq_true, true_and]
    rfl

theorem ofEntries_eq_ok_iff_unchecked {name : String} {start? : Option String} {entries : List Entry}
    {g : Grammar} :
    ofEntries name start? entries = .ok g ↔
      unchecked name start? entries = .ok g ∧ g.checkUnaryCycles = .ok () := by
  rw [ofEntries_eq, Except.bind_eq_ok]
  simp only [Except.map_eq_ok]
  constructor
  · rintro ⟨g', hg', _, hcheck, rfl⟩
    exact ⟨hg', hcheck⟩
  · rintro ⟨hg, hcheck⟩
    exact ⟨g, hg, (), hcheck, rfl⟩

theorem ofEntries_eq_ok {name : String} {start? : Option String} {entries : List Entry}
    {g : Grammar} :
    ofEntries name start? entries = .ok g ↔
      entries ≠ [] ∧ ∃ g₁, entries.foldlM addEntry (ofLeftHandSides name entries) = .ok g₁ ∧
        (match start? with
          | some start => g₁.withStart start
          | none => .ok g₁) = .ok g ∧ g.checkUnaryCycles = .ok () := by
  rw [ofEntries_eq_ok_iff_unchecked, unchecked_eq_ok, and_assoc, ← exists_and_right]
  simp only [and_assoc]

theorem wellFormed_ofEntries {name : String} {start? : Option String} {entries : List Entry}
    {g : Grammar} (hne : ∀ e ∈ entries, [] ∉ e.alternatives)
    (h : ofEntries name start? entries = .ok g) : g.WellFormed := by
  obtain ⟨hentries, g₁, h₁, hstart, hcycles⟩ := ofEntries_eq_ok.mp h
  have hcoherent₁ : g₁.Coherent := by
    refine Except.foldlM_invariant (P := Coherent) ?_ (coherent_ofLeftHandSides name hentries) h₁
    intro s s' e he hs hstep
    exact hs.addEntry (hne e he) hstep
  have hcoherent : g.Coherent := by
    cases start? with
    | none => exact Except.ok.inj hstart ▸ hcoherent₁
    | some start => exact hcoherent₁.withStart hstart
  exact hcoherent.wellFormed hcycles

end Grammar

theorem Document.valid_of_readSymbol {text : String} {s : WrittenSymbol}
    (h : readSymbol text = .ok s) : s.Valid := by
  unfold readSymbol at h
  split at h
  · cases h
  · next word hne _ =>
    obtain rfl := Except.ok.inj h
    simpa [WrittenSymbol.Valid] using hne
  · obtain ⟨name, hname, rfl⟩ := Except.map_eq_ok.mp h
    obtain ⟨hvalid, rfl⟩ := readName_eq_ok.mp hname
    simpa [WrittenSymbol.Valid] using hvalid

theorem Document.valid_of_readAlternative {lhs : String} {symbols : List String}
    {alternative : WrittenAlternative} (h : readAlternative lhs symbols = .ok alternative) :
    alternative ≠ [] ∧ ∀ s ∈ alternative, s.Valid := by
  unfold readAlternative at h
  split_ifs at h with hempty
  constructor
  · rintro rfl
    exact hempty (List.isEmpty_iff.mpr (List.forall₂_nil_right_iff.mp (Except.mapM_eq_ok.mp h)))
  · intro s hs
    obtain ⟨text, -, hread⟩ := Except.exists_of_mem_mapM h hs
    exact valid_of_readSymbol hread

theorem Document.valid_of_entries {d : Document} {entries : List Entry}
    (h : d.entries = .ok entries) : ∀ e ∈ entries, e.Valid := by
  intro e he
  obtain ⟨⟨lhs, alternatives⟩, -, hentry⟩ :=
    Except.exists_of_mem_mapM (Except.mapError_eq_ok.mp h) he
  obtain ⟨name, hname, hentry⟩ := Except.bind_eq_ok.mp hentry
  obtain ⟨written, hread, hentry⟩ := Except.bind_eq_ok.mp hentry
  obtain rfl := Except.ok.inj hentry
  obtain ⟨hvalid, rfl⟩ := readName_eq_ok.mp hname
  refine ⟨by simpa using hvalid, fun ha => ?_⟩
  obtain ⟨symbols, -, hsymbols⟩ := Except.exists_of_mem_mapM hread ha
  exact valid_of_readAlternative hsymbols

/-- The grammars that a loader accepts, with any start symbol chosen later and under any name. -/
inductive Grammar.Loaded : Grammar → Prop
  | ofRuleText {text g} : Grammar.ofRuleText text = .ok g → Loaded g
  | ofJson {text g} : Grammar.ofJson text = .ok g → Loaded g
  | withStart {g name g'} : Loaded g → g.withStart name = .ok g' → Loaded g'
  | named {g} (name : String) : Loaded g → Loaded { g with name }

/-- There are few enough names and words for ids of 32 bits. -/
structure Grammar.Small (g : Grammar) : Prop where
  nonTerminals : g.nonTerminals.size < UInt32.size
  terminals : g.terminals.size < UInt32.size

/-- What holds of the grammars that are made of valid entries, whatever their start symbol and name,
holds of the loaded ones. -/
theorem Grammar.Loaded.of_entries {P : Grammar → Prop}
    (hentries : ∀ name start? entries g, (∀ e ∈ entries, e.Valid) →
      ofEntries name start? entries = .ok g → P g)
    (hstart : ∀ g name g', P g → g.withStart name = .ok g' → P g')
    (hnamed : ∀ g name, P g → P { g with name }) {g : Grammar} (h : g.Loaded) : P g := by
  induction h with
  | ofRuleText h =>
    obtain ⟨entries, hread, h⟩ := Except.bind_eq_ok.mp h
    have hreadable := RuleText.readable_of_readEntries hread
    exact hentries _ _ _ _ (fun e he => (Entry.readable_iff.mp (hreadable e he)).1) h
  | ofJson h =>
    obtain ⟨d, -, h⟩ := Except.bind_eq_ok.mp h
    obtain ⟨entries, hread, h⟩ := Except.bind_eq_ok.mp h
    exact hentries _ _ _ _ (Document.valid_of_entries hread) h
  | withStart _ h ih => exact hstart _ _ _ ih h
  | named name _ ih => exact hnamed _ name ih

theorem Grammar.Loaded.wellFormed {g : Grammar} (h : g.Loaded) : g.WellFormed := by
  refine h.of_entries ?_ (fun _ _ _ hg hstart => hg.withStart hstart) (fun _ _ hg => { hg with })
  intro name start? entries g hvalid h
  exact wellFormed_ofEntries (fun e he => (hvalid e he).nil_notMem) h

namespace Grammar

/-- The bracketings of a row of equal words, each word a phrase of its own. -/
def bracketingRules : String := "S -> S S | N\nN -> \"a\""

def bracketings : Grammar := (ofRuleText bracketingRules).toOption.get (by decide +kernel)

theorem loaded_bracketings : bracketings.Loaded := .ofRuleText (Except.eq_ok_get _)

theorem small_bracketings : bracketings.Small where
  nonTerminals := by decide +kernel
  terminals := by decide +kernel

end Grammar

end PhraseStructure
