import Mathlib.Tactic
import PhraseStructure.Grammar.Display
import PhraseStructure.Proofs.Names

/-!
# Displayed grammars read again

The rule text of a grammar is the text of one entry for each non-terminal. Whether it can be read
again is a question about these entries alone: each must have an alternative, and words must fit
between quotes. The grammar that is read then has the same alternatives under the same names, the
start symbol first.
-/

namespace PhraseStructure.Grammar

section Entries

variable (g : Grammar)

def entry (nt : SymbolId) : Entry := ⟨g.nonTerminalText nt, g.writtenAlternatives nt⟩

def entries : List Entry := g.displayOrder.map g.entry

def displayNames : List String := g.displayOrder.map g.nonTerminalText

theorem symbolText_eq (sym : Symbol) : g.symbolText sym = (g.written sym).text := by
  cases sym <;> rfl

theorem alternativeText_eq (p : Production) :
    g.alternativeText p = WrittenAlternative.text (p.map g.written) := by
  have hsymbol : g.symbolText = WrittenSymbol.text ∘ g.written := funext g.symbolText_eq
  simp [alternativeText, WrittenAlternative.text, hsymbol]

theorem ruleLine_eq (nt : SymbolId) : g.ruleLine nt = (g.entry nt).text := by
  have halternative : g.alternativeText = fun p => WrittenAlternative.text (p.map g.written) :=
    funext g.alternativeText_eq
  simp [ruleLine, Entry.text, entry, writtenAlternatives, Function.comp_def, halternative]

theorem ruleText_eq : g.ruleText = RuleText.ofEntries g.entries := by
  simp [ruleText, RuleText.ofEntries, entries, Function.comp_def, ruleLine_eq]

end Entries

variable {g g' : Grammar}

theorem Coherent.exists_startName (hg : g.Coherent) : ∃ start, g.startName? = some start :=
  ⟨_, name?_nonTerminalText (hg.size_rules ▸ hg.start_lt)⟩

namespace Coherent

variable (hg : g.Coherent) (hsmall : g.Small)
include hg hsmall

theorem lt_of_mem_nonTerminalIds {nt : SymbolId} (h : nt ∈ g.nonTerminalIds) :
    nt.toNat < g.rules.size := by
  obtain ⟨i, hi, rfl⟩ := List.mem_map.mp h
  rw [List.mem_range] at hi
  rwa [UInt32.toNat_ofNat_of_lt' (hi.trans (hg.size_rules ▸ hsmall.nonTerminals))]

theorem mem_displayOrder {nt : SymbolId} : nt ∈ g.displayOrder ↔ nt.toNat < g.rules.size := by
  simp only [displayOrder, List.mem_cons, List.mem_filter, bne_iff_ne]
  constructor
  · rintro (rfl | ⟨h, -⟩)
    · exact hg.start_lt
    · exact hg.lt_of_mem_nonTerminalIds hsmall h
  · intro h
    by_cases hstart : nt = g.start
    · exact Or.inl hstart
    · exact Or.inr ⟨mem_nonTerminalIds h, hstart⟩

theorem map_nonTerminalText :
    g.nonTerminalIds.map g.nonTerminalText = g.nonTerminals.names.toList := by
  apply List.ext_getElem?
  intro i
  by_cases hi : i < g.nonTerminals.size
  · have htoNat : (UInt32.ofNat i).toNat = i :=
      UInt32.toNat_ofNat_of_lt' (hi.trans hsmall.nonTerminals)
    have hname := name?_nonTerminalText (htoNat.symm ▸ hi)
    rw [SymbolTable.name?, htoNat] at hname
    simp [nonTerminalIds, hg.size_rules, hi, hname]
  · have hnone : g.nonTerminals.names[i]? = none := Array.getElem?_eq_none (Nat.le_of_not_lt hi)
    simp [nonTerminalIds, hg.size_rules, hi, hnone]

theorem displayNames_eq {start : String} (hstart : g.startName? = some start) :
    g.displayNames = start :: g.nonTerminals.names.toList.filter fun name => name ≠ start := by
  have htext : g.nonTerminalText g.start = start := by
    rw [nonTerminalText, ← startName?, hstart, Option.getD_some]
  have hother : ∀ nt ∈ g.nonTerminalIds,
      (nt != g.start) = decide (g.nonTerminalText nt ≠ start) := by
    intro nt hnt
    have hid := hg.id?_nonTerminalText hsmall (hg.lt_of_mem_nonTerminalIds hsmall hnt)
    have hidstart := hg.id?_nonTerminalText hsmall hg.start_lt
    grind
  rw [displayNames, displayOrder, List.map_cons, htext, ← hg.map_nonTerminalText hsmall,
    List.filter_map]
  congr 2
  exact List.filter_congr hother

theorem mem_displayNames {name : String} :
    name ∈ g.displayNames ↔ name ∈ g.nonTerminals.names.toList := by
  obtain ⟨start, hstart⟩ := hg.exists_startName
  have hmem : start ∈ g.nonTerminals.names.toList :=
    List.mem_iff_getElem?.mpr ⟨g.start.toNat, by simpa [startName?, SymbolTable.name?] using hstart⟩
  rw [hg.displayNames_eq hsmall hstart]
  by_cases h : name = start <;> simp_all

theorem nodup_displayNames : g.displayNames.Nodup := by
  obtain ⟨start, hstart⟩ := hg.exists_startName
  rw [hg.displayNames_eq hsmall hstart, List.nodup_cons]
  exact ⟨by simp, hg.nonTerminals.nodup.filter _⟩

theorem length_displayNames_le : g.displayNames.length ≤ g.nonTerminals.size :=
  (hg.nodup_displayNames hsmall).length_le_of_subset fun _ h => (hg.mem_displayNames hsmall).mp h

theorem size_lt_of_names_eq (hnames : g'.nonTerminals.names.toList = g.displayNames) :
    g'.nonTerminals.size < UInt32.size := by
  rw [SymbolTable.size, ← Array.length_toList, hnames]
  exact (hg.length_displayNames_le hsmall).trans_lt hsmall.nonTerminals

theorem entries_eq :
    g.entries = g.displayNames.map fun name => ⟨name, g.writtenNamed name⟩ := by
  unfold entries displayNames
  rw [List.map_map]
  apply List.map_congr_left
  intro nt hnt
  rw [Function.comp_apply,
    hg.writtenNamed_nonTerminalText hsmall ((hg.mem_displayOrder hsmall).mp hnt)]
  rfl

end Coherent

/-- Whether rule text can carry a grammar: it has no line for a non-terminal without alternatives,
and no way to write a quote or a line feed in a word. -/
structure Displayable (g : Grammar) : Prop where
  alternatives (nt : SymbolId) : nt.toNat < g.nonTerminals.size → g.alternatives nt ≠ []
  words (word : String) : word ∈ g.terminals.names → '"' ∉ word.toList ∧ '\n' ∉ word.toList

/-- The same grammar with the start symbol first: the same alternatives under the same names. -/
structure Equivalent (g g' : Grammar) : Prop where
  start : g'.start = 0
  names : ∃ start, g.startName? = some start ∧ g'.startName? = some start ∧
    g'.nonTerminals.names.toList =
      start :: g.nonTerminals.names.toList.filter fun name => name ≠ start
  alternatives (name : String) : g'.writtenNamed name = g.writtenNamed name
  categories (word name : String) : name ∈ (g'.categories word).map g'.nonTerminalText ↔
    name ∈ (g.categories word).map g.nonTerminalText
  ruleText : g'.ruleText = g.ruleText

theorem valid_written (hspelled : g.Spelled) {p : Production} (hp : g.Admits p)
    (hsize : g.rules.size = g.nonTerminals.size) {sym : Symbol} (hsym : sym ∈ p) :
    (g.written sym).Valid := by
  cases sym with
  | terminal t => exact hspelled.words (terminalText_mem (hp.terminal_lt hsym))
  | nonTerminal nt =>
    exact hspelled.names (nonTerminalText_mem (hsize ▸ hp.nonTerminal_lt hsym))

theorem valid_entry (hg : g.Coherent) (hspelled : g.Spelled) {nt : SymbolId}
    (hnt : nt.toNat < g.rules.size) : (g.entry nt).Valid where
  lhs := hspelled.names (nonTerminalText_mem (hg.size_rules ▸ hnt))
  symbols := by
    intro a ha
    obtain ⟨p, hp, rfl⟩ := List.mem_map.mp ha
    have hadmits := hg.admits hp
    refine ⟨by simpa using hadmits.ne_nil, ?_⟩
    rw [List.forall_mem_map]
    exact fun sym hsym => valid_written hspelled hadmits hg.size_rules hsym

theorem readable_entry (hg : g.Coherent) (hspelled : g.Spelled) (hdisplay : g.Displayable)
    {nt : SymbolId} (hnt : nt.toNat < g.rules.size) : (g.entry nt).Readable := by
  refine Entry.readable_iff.mpr ⟨valid_entry hg hspelled hnt, ?_, ?_⟩
  · simpa [entry, writtenAlternatives] using hdisplay.alternatives nt (hg.size_rules ▸ hnt)
  · intro a ha word hword
    obtain ⟨p, hp, rfl⟩ := List.mem_map.mp ha
    obtain ⟨sym, hsym, hwritten⟩ := List.mem_map.mp hword
    obtain ⟨t, rfl, rfl⟩ := written_eq_word.mp hwritten
    have hmem := terminalText_mem ((hg.admits hp).terminal_lt hsym)
    exact hdisplay.words _ (Array.mem_toList_iff.mp hmem)

theorem map_lhs_entries : g.entries.map Entry.lhs = g.displayNames := by
  simp [entries, displayNames, entry, Function.comp_def]

theorem entries_ne_nil : g.entries ≠ [] := by simp [entries, displayOrder]

theorem names_ofLeftHandSides (hg : g.Coherent) (hsmall : g.Small) (name : String) :
    (ofLeftHandSides name g.entries).nonTerminals.names.toList = g.displayNames := by
  rw [ofLeftHandSides, map_lhs_entries]
  exact (SymbolTable.toList_names_internAll_empty _).trans
    (hg.nodup_displayNames hsmall).eraseDups_eq

theorem nil_notMem_entries (hg : g.Coherent) : ∀ e ∈ g.entries, [] ∉ e.alternatives := by
  unfold entries
  rw [List.forall_mem_map]
  intro nt _ hnil
  obtain ⟨p, hp, hwritten⟩ := List.mem_map.mp hnil
  exact (hg.admits hp).ne_nil (List.map_eq_nil_iff.mp hwritten)

theorem fits_of_mem_rulesOf (hg : g.Coherent) {r : WrittenRule} (hr : r ∈ rulesOf g.entries)
    {names : List String} (hnames : g.nonTerminals.names.toList ⊆ names) : r.Fits names := by
  obtain ⟨e, he, -, ha⟩ := mem_rulesOf.mp hr
  obtain ⟨nt, hnt, rfl⟩ := List.mem_map.mp he
  obtain ⟨p, hp, hwritten⟩ := List.mem_map.mp ha
  rcases hg.admits hp with ⟨t, rfl, -⟩ | ⟨nts, -, rfl, hnts⟩
  · exact Or.inl ⟨g.terminalText t, by simp [← hwritten, written]⟩
  · refine Or.inr ?_
    rw [← hwritten, List.forall_mem_map, List.forall_mem_map]
    intro child hchild
    exact ⟨_, hnames (nonTerminalText_mem (hg.size_rules ▸ hnts child hchild)), rfl⟩

/-- A grammar that holds the entries of another one. -/
structure Rereads (g g' : Grammar) : Prop extends g'.Holds (rulesOf g.entries) where
  start_eq : g'.start = 0
  names_eq : g'.nonTerminals.names.toList = g.displayNames
  small : g'.Small

theorem rereads_of_foldlM (hg : g.Coherent) (hsmall : g.Small)
    (h : g.entries.foldlM addEntry (ofLeftHandSides "grammar" g.entries) = .ok g') :
    g.Rereads g' := by
  obtain ⟨hnames, hwords, hstart⟩ := tables_of_foldlM h
  have hlist : g'.nonTerminals.names.toList = g.displayNames := by
    rw [hnames]
    exact names_ofLeftHandSides hg hsmall "grammar"
  have hcount := hg.size_lt_of_names_eq hsmall hlist
  have hsubset : g'.terminals.names.toList ⊆ g.terminals.names.toList := by
    intro word hword
    rw [hwords, SymbolTable.mem_names_internAll_empty, mem_words_rulesOf] at hword
    obtain ⟨e, he, ha⟩ := hword
    obtain ⟨nt, hnt, rfl⟩ := List.mem_map.mp he
    have hnamed := hg.writtenNamed_nonTerminalText hsmall ((hg.mem_displayOrder hsmall).mp hnt)
    change [.word word] ∈ g.writtenAlternatives nt at ha
    rw [← hnamed] at ha
    exact hg.mem_names_of_writtenNamed ha
  have hholds := holds_of_foldlM entries_ne_nil (nil_notMem_entries hg) h hcount
  refine { hholds with start_eq := hstart, names_eq := hlist, small := ⟨hcount, ?_⟩ }
  have hle := hholds.terminals.nodup.length_le_of_subset hsubset
  exact lt_of_le_of_lt (by simpa [SymbolTable.size] using hle) hsmall.terminals

namespace Rereads

variable (hg : g.Coherent) (hsmall : g.Small) (h : g.Rereads g')
include hg hsmall h

theorem writtenNamed_eq (name : String) : g'.writtenNamed name = g.writtenNamed name := by
  rw [h.writtenNamed h.small, hg.entries_eq hsmall,
    alternativesOf_rulesOf_map (hg.nodup_displayNames hsmall)]
  split_ifs with hname
  · rfl
  · rw [hg.mem_displayNames hsmall, ← hg.nonTerminals.id?_eq_none] at hname
    rw [writtenNamed, hname]

theorem namedStep_eq : g'.NamedStep = g.NamedStep := by
  funext name child
  rw [NamedStep, h.writtenNamed_eq hg hsmall]
  rfl

theorem checkUnaryCycles_eq_ok (hcheck : g.checkUnaryCycles = .ok ()) :
    g'.checkUnaryCycles = .ok () := by
  rw [(h.toCoherent.identified h.small).checkUnaryCycles_eq_ok, h.namedStep_eq hg hsmall]
  exact (hg.identified hsmall).checkUnaryCycles_eq_ok.mp hcheck

theorem startName?_eq {start : String} (hstart : g.startName? = some start) :
    g'.startName? = some start := by
  have hnames := h.names_eq
  rw [hg.displayNames_eq hsmall hstart] at hnames
  have hfirst : g'.nonTerminals.names[0]? = some start := by
    rw [← Array.getElem?_toList, hnames]
    rfl
  rw [startName?, h.start_eq]
  exact hfirst

theorem displayNames_eq : g'.displayNames = g.displayNames := by
  obtain ⟨start, hstart⟩ := hg.exists_startName
  have hstart' := h.startName?_eq hg hsmall hstart
  rw [h.toCoherent.displayNames_eq h.small hstart', h.names_eq, hg.displayNames_eq hsmall hstart]
  simp [List.filter_filter]

theorem equivalent : g.Equivalent g' := by
  obtain ⟨start, hstart⟩ := hg.exists_startName
  refine ⟨h.start_eq, ⟨start, hstart, h.startName?_eq hg hsmall hstart, ?_⟩,
    h.writtenNamed_eq hg hsmall, ?_, ?_⟩
  · rw [h.names_eq, hg.displayNames_eq hsmall hstart]
  · intro word name
    rw [h.toCoherent.mem_names_categories h.small, hg.mem_names_categories hsmall,
      h.writtenNamed_eq hg hsmall]
  · rw [ruleText_eq, ruleText_eq, h.toCoherent.entries_eq h.small, hg.entries_eq hsmall,
      h.displayNames_eq hg hsmall]
    simp only [h.writtenNamed_eq hg hsmall]

end Rereads

theorem Displayable.exists_reread (hg : g.WellFormed) (hsmall : g.Small) (hspelled : g.Spelled)
    (hdisplay : g.Displayable) : ∃ g', ofRuleText g.ruleText = .ok g' ∧ g.Equivalent g' := by
  have hcoherent := hg.toCoherent
  have hread : RuleText.readEntries g.ruleText = .ok g.entries := by
    rw [ruleText_eq]
    apply RuleText.readEntries_ofEntries.mpr
    unfold entries
    rw [List.forall_mem_map]
    intro nt hnt
    exact readable_entry hcoherent hspelled hdisplay ((hcoherent.mem_displayOrder hsmall).mp hnt)
  have hnames : g.nonTerminals.names.toList ⊆
      (ofLeftHandSides "grammar" g.entries).nonTerminals.names.toList := by
    intro name hname
    rw [names_ofLeftHandSides hcoherent hsmall]
    exact (hcoherent.mem_displayNames hsmall).mpr hname
  have hlawful := (coherent_ofLeftHandSides "grammar" g.entries_ne_nil).nonTerminals
  obtain ⟨g', hrun⟩ := (exists_foldlM_addRule hlawful).mpr
    fun r hr => fits_of_mem_rulesOf hcoherent hr hnames
  rw [← foldlM_addEntry] at hrun
  have hrereads := rereads_of_foldlM hcoherent hsmall hrun
  refine ⟨g', ?_, hrereads.equivalent hcoherent hsmall⟩
  have hcycles := hrereads.checkUnaryCycles_eq_ok hcoherent hsmall
    (Grammar.checkUnaryCycles_eq_ok hg.acyclic)
  rw [ofRuleText, hread]
  change ofEntries "grammar" none g.entries = .ok g'
  exact ofEntries_eq_ok.mpr ⟨entries_ne_nil, g', hrun, rfl, hcycles⟩

theorem writtenNamed_ne_nil {text : String} (h : ofRuleText text = .ok g)
    (hsize : g.nonTerminals.size < UInt32.size) {name : String}
    (hname : name ∈ g.nonTerminals.names.toList) : g.writtenNamed name ≠ [] := by
  obtain ⟨entries, hread, h⟩ := Except.bind_eq_ok.mp h
  have hreadable := RuleText.readable_of_readEntries hread
  have hholds := holds_ofEntries (fun e he => (hreadable e he).nil_notMem) h hsize
  obtain ⟨id, hid⟩ := hholds.nonTerminals.mem_names_iff.mp hname
  rw [(tables_ofEntries h).1, SymbolTable.mem_names_internAll_empty] at hname
  obtain ⟨e, he, rfl⟩ := List.mem_map.mp hname
  obtain ⟨a, ha⟩ := List.exists_mem_of_ne_nil _ (hreadable e he).alternatives
  have hmem : a ∈ alternativesOf (rulesOf entries) e.lhs :=
    mem_alternativesOf.mpr (mem_rulesOf.mpr ⟨e, he, rfl, ha⟩)
  intro hnil
  have hnone : g.alternatives id = [] := by
    simpa [writtenNamed, hid, writtenAlternatives] using hnil
  have hall := hholds.alternatives hid
  rw [hnone, List.forall₂_nil_right_iff] at hall
  exact List.ne_nil_of_mem hmem hall

theorem words_of_ofRuleText {text : String} (h : ofRuleText text = .ok g) {word : String}
    (hword : word ∈ g.terminals.names.toList) : '"' ∉ word.toList ∧ '\n' ∉ word.toList := by
  obtain ⟨entries, hread, h⟩ := Except.bind_eq_ok.mp h
  rw [(tables_ofEntries h).2, SymbolTable.mem_names_internAll_empty, mem_words_rulesOf] at hword
  obtain ⟨e, he, ha⟩ := hword
  obtain ⟨-, -, hwords⟩ := Entry.readable_iff.mp (RuleText.readable_of_readEntries hread e he)
  exact hwords _ ha word List.mem_cons_self

/-- Grammars that were read from rule text can be displayed as such. -/
theorem displayable_of_ofRuleText {text : String} (h : ofRuleText text = .ok g)
    (hsmall : g.Small) : g.Displayable where
  alternatives := by
    intro nt hnt
    have hg := (Loaded.ofRuleText h).wellFormed.toCoherent
    rw [Ne, ← hg.writtenNamed_eq_nil hsmall (hg.size_rules ▸ hnt)]
    exact writtenNamed_ne_nil h hsmall.nonTerminals (nonTerminalText_mem hnt)
  words _ hword := words_of_ofRuleText h (Array.mem_toList_iff.mpr hword)

/-- Only a displayable grammar is read again as it was. -/
theorem Equivalent.displayable (hg : g.Coherent) (hsmall : g.Small)
    (hread : ofRuleText g.ruleText = .ok g') (he : g.Equivalent g') : g.Displayable := by
  have hlist : g'.nonTerminals.names.toList = g.displayNames := by
    obtain ⟨start, hstart, -, hlist⟩ := he.names
    rw [hlist, hg.displayNames_eq hsmall hstart]
  have hsize := hg.size_lt_of_names_eq hsmall hlist
  constructor
  · intro nt hnt
    have hname : g.nonTerminalText nt ∈ g'.nonTerminals.names.toList := by
      rw [hlist, hg.mem_displayNames hsmall]
      exact nonTerminalText_mem hnt
    rw [Ne, ← hg.writtenNamed_eq_nil hsmall (hg.size_rules ▸ hnt), ← he.alternatives]
    exact writtenNamed_ne_nil hread hsize hname
  · intro word hword
    obtain ⟨name, hname⟩ := hg.exists_writtenNamed hsmall (Array.mem_toList_iff.mpr hword)
    rw [← he.alternatives] at hname
    have hg' := (Loaded.ofRuleText hread).wellFormed
    exact words_of_ofRuleText hread (hg'.toCoherent.mem_names_of_writtenNamed hname)

/-- A loaded grammar is read again from its display, up to the order of its names, exactly if all
its non-terminals have alternatives and no quote or line feed stands in a word. -/
theorem display_reloads (hloaded : g.Loaded) (hsmall : g.Small) :
    (∃ g', ofRuleText g.ruleText = .ok g' ∧ g.Equivalent g') ↔ g.Displayable := by
  constructor
  · rintro ⟨g', hread, he⟩
    exact he.displayable hloaded.wellFormed.toCoherent hsmall hread
  · intro hdisplay
    exact hdisplay.exists_reread hloaded.wellFormed hsmall hloaded.spelled

/-- Two words, one of them made of the signs that rules are written with. -/
def signRules : String := "N -> \"a\" | \"# -> |\"\nS -> N N"

def signs : Grammar := (ofRuleText signRules).toOption.get (by decide +kernel)

/-- With another start symbol the lines change places, and nothing else does. -/
theorem display_signs : ∃ g, signs.withStart "S" = .ok g ∧
    g.ruleText = "S -> N N\nN -> \"a\" | \"# -> |\"\n" ∧
      ∃ g', ofRuleText g.ruleText = .ok g' ∧ g.Equivalent g' := by
  have hread : ofRuleText signRules = .ok signs := Except.eq_ok_get _
  have hid : signs.definedId "S" = .ok 1 := by decide +kernel
  have hstart : signs.withStart "S" = .ok { signs with start := 1 } :=
    signs.withStart_eq_ok.mpr ⟨1, hid, rfl⟩
  have hsmall : signs.Small := ⟨by decide +kernel, by decide +kernel⟩
  have hdisplay := displayable_of_ofRuleText hread hsmall
  refine ⟨_, hstart, by decide +kernel, ?_⟩
  refine (display_reloads ((Loaded.ofRuleText hread).withStart hstart) ?_).mpr ?_
  · exact ⟨hsmall.nonTerminals, hsmall.terminals⟩
  · exact ⟨hdisplay.alternatives, hdisplay.words⟩

end PhraseStructure.Grammar
