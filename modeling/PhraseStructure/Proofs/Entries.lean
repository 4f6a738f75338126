import Mathlib.Tactic
import PhraseStructure.Proofs.WellFormed

/-!
# The rules that a grammar holds

Entries are read rule by rule, a rule being a left-hand side with one alternative. Each rule adds
one production, which says with ids what the rule says with words and names, and ids that are in use
keep their meaning while further words are numbered. So a grammar holds the rules of its entries.
-/

namespace PhraseStructure

structure WrittenRule where
  lhs : String
  alternative : WrittenAlternative
  deriving DecidableEq, Repr

def WrittenRule.word? (r : WrittenRule) : Option String :=
  match r.alternative with
  | [.word word] => some word
  | _ => none

theorem WrittenRule.word?_eq_some {r : WrittenRule} {word : String} :
    r.word? = some word ↔ r.alternative = [.word word] := by
  unfold word?
  split <;> simp_all

/-- Whether a rule can be read where `names` are the non-terminals: it is one word, or its symbols
are names among them. -/
def WrittenRule.Fits (names : List String) (r : WrittenRule) : Prop :=
  (∃ word, r.alternative = [.word word]) ∨ ∀ s ∈ r.alternative, ∃ name ∈ names, s = .name name

def Entry.rules (e : Entry) : List WrittenRule := e.alternatives.map fun a => ⟨e.lhs, a⟩

def rulesOf (entries : List Entry) : List WrittenRule := entries.flatMap Entry.rules

/-- The alternatives of one left-hand side, in the order of the rules. -/
def alternativesOf (rules : List WrittenRule) (name : String) : List WrittenAlternative :=
  (rules.filter fun r => r.lhs = name).map WrittenRule.alternative

theorem mem_rulesOf {entries : List Entry} {r : WrittenRule} :
    r ∈ rulesOf entries ↔ ∃ e ∈ entries, r.lhs = e.lhs ∧ r.alternative ∈ e.alternatives := by
  simp only [rulesOf, Entry.rules, List.mem_flatMap, List.mem_map]
  constructor
  · rintro ⟨e, he, a, ha, rfl⟩
    exact ⟨e, he, rfl, ha⟩
  · rintro ⟨e, he, hlhs, ha⟩
    exact ⟨e, he, r.alternative, ha, by rw [← hlhs]⟩

theorem ne_nil_of_mem_rulesOf {entries : List Entry} (hne : ∀ e ∈ entries, [] ∉ e.alternatives)
    {r : WrittenRule} (hr : r ∈ rulesOf entries) : r.alternative ≠ [] := by
  obtain ⟨e, he, -, ha⟩ := mem_rulesOf.mp hr
  exact ne_of_mem_of_not_mem ha (hne e he)

theorem mem_words_rulesOf {entries : List Entry} {word : String} :
    word ∈ (rulesOf entries).filterMap WrittenRule.word? ↔
      ∃ e ∈ entries, [.word word] ∈ e.alternatives := by
  simp only [List.mem_filterMap, WrittenRule.word?_eq_some, mem_rulesOf]
  constructor
  · rintro ⟨r, ⟨e, he, -, ha⟩, hr⟩
    exact ⟨e, he, hr ▸ ha⟩
  · rintro ⟨e, he, ha⟩
    exact ⟨⟨e.lhs, _⟩, ⟨e, he, rfl, ha⟩, rfl⟩

theorem mem_alternativesOf {rules : List WrittenRule} {name : String} {a : WrittenAlternative} :
    a ∈ alternativesOf rules name ↔ ⟨name, a⟩ ∈ rules := by
  simp only [alternativesOf, List.mem_map, List.mem_filter, decide_eq_true_eq]
  constructor
  · rintro ⟨r, ⟨hr, rfl⟩, rfl⟩
    exact hr
  · exact fun h => ⟨⟨name, a⟩, ⟨h, rfl⟩, rfl⟩

theorem alternativesOf_append (rules more : List WrittenRule) (name : String) :
    alternativesOf (rules ++ more) name =
      alternativesOf rules name ++ alternativesOf more name := by
  simp [alternativesOf]

theorem alternativesOf_rules (e : Entry) (name : String) :
    alternativesOf e.rules name = if e.lhs = name then e.alternatives else [] := by
  unfold alternativesOf Entry.rules
  split_ifs with h <;> simp [h, List.filter_map, Function.comp_def]

theorem alternativesOf_rulesOf_map {names : List String} (hnodup : names.Nodup)
    (f : String → List WrittenAlternative) (name : String) :
    alternativesOf (rulesOf (names.map fun n => ⟨n, f n⟩)) name =
      if name ∈ names then f name else [] := by
  induction names with
  | nil => rfl
  | cons other names ih =>
    obtain ⟨hnew, hrest⟩ := List.nodup_cons.mp hnodup
    have hsplit : rulesOf ((other :: names).map fun n => ⟨n, f n⟩) =
        Entry.rules ⟨other, f other⟩ ++ rulesOf (names.map fun n => ⟨n, f n⟩) := by
      simp [rulesOf]
    rw [hsplit, alternativesOf_append, alternativesOf_rules, ih hrest]
    by_cases h : other = name
    · simp [← h, hnew]
    · simp [h, Ne.symm h]

namespace Grammar

/-- A symbol stands for a word or a name if it has its id. -/
def Denotes (g : Grammar) : WrittenSymbol → Symbol → Prop
  | .word word, .terminal t => g.terminals.id? word = some t
  | .name name, .nonTerminal nt => g.nonTerminals.id? name = some nt
  | _, _ => False

theorem Denotes.mono {g g' : Grammar} {s : WrittenSymbol} {sym : Symbol} (h : g.Denotes s sym)
    (hnonTerminals : g'.nonTerminals = g.nonTerminals)
    (hterminals : ∀ word id, g.terminals.id? word = some id → g'.terminals.id? word = some id) :
    g'.Denotes s sym := by
  cases s <;> cases sym <;> simp_all [Denotes]

theorem Denotes.exists_name {g : Grammar} {s : WrittenSymbol} {child : SymbolId}
    (h : g.Denotes s (.nonTerminal child)) :
    ∃ name, s = .name name ∧ g.nonTerminals.id? name = some child := by
  cases s with
  | word word => exact h.elim
  | name name => exact ⟨name, rfl, h⟩

def addRule (g : Grammar) (r : WrittenRule) : Except GrammarError Grammar :=
  g.addWritten r.lhs r.alternative

theorem foldlM_addEntry (entries : List Entry) (g : Grammar) :
    entries.foldlM addEntry g = (rulesOf entries).foldlM addRule g := by
  induction entries generalizing g with
  | nil => rfl
  | cons e entries ih =>
    have hentry : g.addEntry e = e.rules.foldlM addRule g := by
      simp only [addEntry, Entry.rules, List.foldlM_map, addRule]
    simp only [List.foldlM_cons, rulesOf, List.flatMap_cons, List.foldlM_append, hentry]
    exact bind_congr ih

/-- What reading a rule does to a grammar: it numbers the word of the rule and adds one production
to the left-hand side. -/
structure Adds (g : Grammar) (r : WrittenRule) (g' : Grammar) : Prop where
  nonTerminals : g'.nonTerminals = g.nonTerminals
  terminals : g'.terminals = g.terminals.internAll r.word?.toList
  start : g'.start = g.start
  alternatives {id : SymbolId} : g.nonTerminals.id? r.lhs = some id → id.toNat < g.rules.size →
    ∃ p : Production, List.Forall₂ g'.Denotes r.alternative p ∧
      ∀ nt, g'.alternatives nt = if id = nt then g.alternatives nt ++ [p] else g.alternatives nt

theorem resolve_eq_ok {g : Grammar} {lhs : String} {s : WrittenSymbol} {sym : Symbol} :
    g.resolve lhs s = .ok sym ↔ g.Denotes s sym ∧ ∃ name, s = .name name := by
  cases s with
  | word word => simp [resolve]
  | name name =>
    rw [resolve]
    cases hid : g.nonTerminals.id? name <;> cases sym <;> simp [Denotes, hid]

theorem adds_addWord (g : Grammar) {r : WrittenRule} {word : String}
    (hword : r.word? = some word) :
    g.Adds r (g.addWord ((g.nonTerminals.id? r.lhs).getD 0) word) where
  nonTerminals := nonTerminals_addWord ..
  terminals := by simp [hword]
  start := start_addWord ..
  alternatives := by
    intro id hid hlt
    refine ⟨[.terminal (g.terminals.intern word).1], ?_, ?_⟩
    · rw [WrittenRule.word?_eq_some.mp hword]
      refine .cons ?_ .nil
      simp [Denotes]
    · intro nt
      rw [addWord_eq, alternatives_addAlternative, hid]
      simp only [Option.getD_some, hlt, and_true]
      rfl

theorem adds_addAlternative {g : Grammar} {r : WrittenRule} {p : Production}
    (hword : r.word? = none) (hp : List.Forall₂ g.Denotes r.alternative p) :
    g.Adds r (g.addAlternative ((g.nonTerminals.id? r.lhs).getD 0) p) where
  nonTerminals := rfl
  terminals := by simp [hword, addAlternative]
  start := rfl
  alternatives := by
    intro id hid hlt
    refine ⟨p, hp, ?_⟩
    intro nt
    rw [alternatives_addAlternative, hid]
    simp only [Option.getD_some, hlt, and_true]

theorem addRule_of_names {g : Grammar} {r : WrittenRule} (hword : r.word? = none) :
    g.addRule r = (r.alternative.mapM (g.resolve r.lhs)).map
      (g.addAlternative ((g.nonTerminals.id? r.lhs).getD 0)) := by
  unfold addRule addWritten
  split
  · next word h => simp [WrittenRule.word?, h] at hword
  · cases r.alternative.mapM (g.resolve r.lhs) <;> rfl

theorem addRule_eq_ok {g g' : Grammar} {r : WrittenRule} (hword : r.word? = none) :
    g.addRule r = .ok g' ↔ ∃ p, r.alternative.mapM (g.resolve r.lhs) = .ok p ∧
      g' = g.addAlternative ((g.nonTerminals.id? r.lhs).getD 0) p := by
  rw [addRule_of_names hword, Except.map_eq_ok]
  simp only [eq_comm]

theorem addRule_of_word {g : Grammar} {r : WrittenRule} {word : String}
    (hword : r.word? = some word) :
    g.addRule r = .ok (g.addWord ((g.nonTerminals.id? r.lhs).getD 0) word) := by
  unfold addRule
  rw [WrittenRule.word?_eq_some.mp hword]
  rfl

theorem adds_of_addRule {g g' : Grammar} {r : WrittenRule} (h : g.addRule r = .ok g') :
    g.Adds r g' := by
  cases hword : r.word? with
  | some word =>
    obtain rfl := Except.ok.inj ((addRule_of_word hword).symm.trans h)
    exact g.adds_addWord hword
  | none =>
    obtain ⟨p, hp, rfl⟩ := (addRule_eq_ok hword).mp h
    refine adds_addAlternative hword ?_
    exact (Except.mapM_eq_ok.mp hp).imp fun _ _ hs => (resolve_eq_ok.mp hs).1

theorem exists_addRule {g : Grammar} (hg : g.nonTerminals.Lawful) {r : WrittenRule} :
    (∃ g', g.addRule r = .ok g') ↔ r.Fits g.nonTerminals.names.toList := by
  unfold WrittenRule.Fits
  simp only [← WrittenRule.word?_eq_some]
  cases hword : r.word? with
  | some word => simp [addRule_of_word hword]
  | none =>
    have hsymbol : ∀ s, (∃ sym, g.resolve r.lhs s = .ok sym) ↔
        ∃ name ∈ g.nonTerminals.names.toList, s = .name name := by
      intro s
      cases s with
      | word word => simp [resolve]
      | name name =>
        simp only [WrittenSymbol.name.injEq, exists_eq_right', hg.mem_names_iff, resolve]
        cases g.nonTerminals.id? name <;> simp
    have hrun : (∃ p, r.alternative.mapM (g.resolve r.lhs) = .ok p) ↔
        ∀ s ∈ r.alternative, ∃ name ∈ g.nonTerminals.names.toList, s = .name name := by
      rw [Except.exists_mapM_eq_ok]
      simp only [hsymbol]
    simp only [addRule_eq_ok hword, ← hrun]
    grind

/-- A grammar whose productions are the alternatives of rules, with ids for words and names. Empty
alternatives are among them. -/
structure Transcribes (g : Grammar) (rules : List WrittenRule) : Prop where
  nonTerminals : g.nonTerminals.Lawful
  terminals : g.terminals.Lawful
  size_rules : g.rules.size = g.nonTerminals.size
  size_lt : g.nonTerminals.size < UInt32.size
  defined {r : WrittenRule} : r ∈ rules → ∃ id, g.nonTerminals.id? r.lhs = some id
  alternatives {name : String} {id : SymbolId} : g.nonTerminals.id? name = some id →
    List.Forall₂ (List.Forall₂ g.Denotes) (alternativesOf rules name) (g.alternatives id)

/-- A coherent grammar that is made of rules. -/
structure Holds (g : Grammar) (rules : List WrittenRule) : Prop extends
  g.Coherent, g.Transcribes rules

theorem size_rules_of_addRule {g g' : Grammar} {r : WrittenRule} (h : g.addRule r = .ok g') :
    g'.rules.size = g.rules.size := by
  cases hword : r.word? with
  | some word =>
    obtain rfl := Except.ok.inj ((addRule_of_word hword).symm.trans h)
    exact size_rules_addWord ..
  | none =>
    obtain ⟨p, -, rfl⟩ := (addRule_eq_ok hword).mp h
    exact size_rules_addAlternative ..

/-- A rule adds to its own left-hand side, and to no other: different names have different ids. -/
theorem Transcribes.addRule {g g' : Grammar} {rules : List WrittenRule} (hg : g.Transcribes rules)
    {r : WrittenRule} {id : SymbolId} (hid : g.nonTerminals.id? r.lhs = some id)
    (h : g.addRule r = .ok g') : g'.Transcribes (rules ++ [r]) := by
  have hadds := adds_of_addRule h
  have hkeep : ∀ s sym, g.Denotes s sym → g'.Denotes s sym := by
    intro s sym hs
    refine hs.mono hadds.nonTerminals fun word t ht => ?_
    rw [hadds.terminals]
    exact SymbolTable.id?_internAll_of_id? ht _
  obtain ⟨p, hp, hadded⟩ := hadds.alternatives hid (hg.size_rules ▸ hg.nonTerminals.toNat_lt hid)
  refine ⟨hadds.nonTerminals ▸ hg.nonTerminals, hadds.terminals ▸ hg.terminals.internAll _, ?_,
    hadds.nonTerminals ▸ hg.size_lt, ?_, ?_⟩
  · rw [size_rules_of_addRule h, hadds.nonTerminals, hg.size_rules]
  · intro r' hr'
    rw [hadds.nonTerminals]
    rcases List.mem_append.mp hr' with hr' | hr'
    · exact hg.defined hr'
    · exact ⟨id, List.mem_singleton.mp hr' ▸ hid⟩
  · intro name nt hnt
    rw [hadds.nonTerminals] at hnt
    have hold := (hg.alternatives hnt).imp fun _ _ ha => ha.imp hkeep
    rw [hadded, alternativesOf_append]
    by_cases hname : r.lhs = name
    · obtain rfl : id = nt := by simpa [← hname, hid] using hnt
      rw [if_pos rfl]
      refine List.rel_append hold ?_
      simpa [alternativesOf, hname] using hp
    · have hother : id ≠ nt := fun he =>
        hname (hg.nonTerminals.eq_of_id? hg.size_lt.le hid (he ▸ hnt))
      simpa [alternativesOf, hname, hother] using hold

theorem Coherent.addRule {g g' : Grammar} (hg : g.Coherent) {r : WrittenRule}
    (hne : r.alternative ≠ []) (h : g.addRule r = .ok g') : g'.Coherent := hg.addWritten hne h

/-- What holds of a grammar and the rules it was made of, and still does with one rule more, holds
after a run. -/
theorem foldlM_addRule_induction {P : Grammar → List WrittenRule → Prop} {more : List WrittenRule}
    (hstep : ∀ {g g' : Grammar} {rules : List WrittenRule} {r : WrittenRule} {id : SymbolId},
      r ∈ more → P g rules → g.nonTerminals.id? r.lhs = some id → g.addRule r = .ok g' →
        P g' (rules ++ [r]))
    {g g' : Grammar} {rules : List WrittenRule} (hg : P g rules)
    (hmore : ∀ r ∈ more, ∃ id, g.nonTerminals.id? r.lhs = some id)
    (h : more.foldlM Grammar.addRule g = .ok g') : P g' (rules ++ more) := by
  induction more generalizing g rules with
  | nil =>
    obtain rfl : g = g' := Except.ok.inj h
    simpa using hg
  | cons r more ih =>
    rw [List.foldlM_cons, Except.bind_eq_ok] at h
    obtain ⟨g₁, hr, h⟩ := h
    obtain ⟨⟨id, hid⟩, hrest⟩ := List.forall_mem_cons.mp hmore
    have hrun := ih (fun hmem => hstep (List.mem_cons_of_mem _ hmem))
      (hstep List.mem_cons_self hg hid hr) (by rwa [(adds_of_addRule hr).nonTerminals]) h
    rwa [List.append_assoc] at hrun

theorem nonTerminals_foldlM_addRule {g g' : Grammar} {rules : List WrittenRule}
    (h : rules.foldlM addRule g = .ok g') : g'.nonTerminals = g.nonTerminals :=
  Except.foldlM_invariant (P := fun s => s.nonTerminals = g.nonTerminals)
    (fun _ _ _ _ hs hstep => (adds_of_addRule hstep).nonTerminals.trans hs) rfl h

theorem start_foldlM_addRule {g g' : Grammar} {rules : List WrittenRule}
    (h : rules.foldlM addRule g = .ok g') : g'.start = g.start :=
  Except.foldlM_invariant (P := fun s => s.start = g.start)
    (fun _ _ _ _ hs hstep => (adds_of_addRule hstep).start.trans hs) rfl h

theorem terminals_foldlM_addRule {g g' : Grammar} {rules : List WrittenRule}
    (h : rules.foldlM addRule g = .ok g') :
    g'.terminals = g.terminals.internAll (rules.filterMap WrittenRule.word?) := by
  induction rules generalizing g with
  | nil =>
    obtain rfl : g = g' := Except.ok.inj h
    rfl
  | cons r rules ih =>
    rw [List.foldlM_cons, Except.bind_eq_ok] at h
    obtain ⟨g₁, hr, h⟩ := h
    rw [ih h, (adds_of_addRule hr).terminals, ← SymbolTable.internAll_append]
    cases hword : r.word? <;> simp [hword]

/-- The rules are read to the end exactly if all of them fit the non-terminals. -/
theorem exists_foldlM_addRule {g : Grammar} (hg : g.nonTerminals.Lawful)
    {rules : List WrittenRule} :
    (∃ g', rules.foldlM addRule g = .ok g') ↔
      ∀ r ∈ rules, r.Fits g.nonTerminals.names.toList := by
  induction rules generalizing g with
  | nil => simp [pure, Except.pure]
  | cons r rules ih =>
    simp only [List.foldlM_cons, Except.bind_eq_ok, List.forall_mem_cons]
    constructor
    · rintro ⟨g', g₁, hr, h⟩
      have hnames := (adds_of_addRule hr).nonTerminals
      have hrest := (ih (hnames ▸ hg)).mp ⟨g', h⟩
      exact ⟨(exists_addRule hg).mp ⟨g₁, hr⟩, by rwa [hnames] at hrest⟩
    · rintro ⟨hfits, hrest⟩
      obtain ⟨g₁, hr⟩ := (exists_addRule hg).mpr hfits
      have hnames := (adds_of_addRule hr).nonTerminals
      obtain ⟨g', h⟩ := (ih (hnames ▸ hg)).mpr (by rwa [hnames])
      exact ⟨g', g₁, hr, h⟩

theorem transcribes_ofLeftHandSides {name : String} {entries : List Entry}
    (hsmall : (ofLeftHandSides name entries).nonTerminals.size < UInt32.size) :
    (ofLeftHandSides name entries).Transcribes [] where
  nonTerminals := SymbolTable.lawful_empty.internAll _
  terminals := SymbolTable.lawful_empty
  size_rules := Array.size_replicate
  size_lt := hsmall
  defined := by simp
  alternatives := by
    intro _ id _
    rw [alternatives_ofLeftHandSides]
    exact .nil

theorem Transcribes.withStart {g g' : Grammar} {rules : List WrittenRule} (hg : g.Transcribes rules)
    {name : String} (h : g.withStart name = .ok g') : g'.Transcribes rules := by
  obtain ⟨id, -, rfl⟩ := g.withStart_eq_ok.mp h
  exact { hg with
    alternatives := fun hid => (hg.alternatives hid).imp fun _ _ ha => ha.imp fun _ _ hs =>
      hs.mono rfl fun _ _ ht => ht }

theorem Holds.withStart {g g' : Grammar} {rules : List WrittenRule} (hg : g.Holds rules)
    {name : String} (h : g.withStart name = .ok g') : g'.Holds rules :=
  { hg.toCoherent.withStart h, hg.toTranscribes.withStart h with }

theorem tables_of_foldlM {name : String} {entries : List Entry} {g : Grammar}
    (h : entries.foldlM addEntry (ofLeftHandSides name entries) = .ok g) :
    g.nonTerminals = (∅ : SymbolTable).internAll (entries.map Entry.lhs) ∧
      g.terminals = (∅ : SymbolTable).internAll ((rulesOf entries).filterMap WrittenRule.word?) ∧
      g.start = 0 := by
  rw [foldlM_addEntry] at h
  exact ⟨nonTerminals_foldlM_addRule h, terminals_foldlM_addRule h, start_foldlM_addRule h⟩

/-- What holds of a grammar without rules, and still does with one rule more, holds when all
entries are read. -/
theorem foldlM_addEntry_induction {P : Grammar → List WrittenRule → Prop} {entries : List Entry}
    (hstep : ∀ {g g' : Grammar} {rules : List WrittenRule} {r : WrittenRule} {id : SymbolId},
      r ∈ rulesOf entries → P g rules → g.nonTerminals.id? r.lhs = some id →
        g.addRule r = .ok g' → P g' (rules ++ [r]))
    {name : String} {g : Grammar} (hempty : P (ofLeftHandSides name entries) [])
    (h : entries.foldlM addEntry (ofLeftHandSides name entries) = .ok g) :
    P g (rulesOf entries) := by
  rw [foldlM_addEntry] at h
  refine foldlM_addRule_induction hstep hempty ?_ h
  intro r hr
  obtain ⟨e, he, hlhs, -⟩ := mem_rulesOf.mp hr
  exact SymbolTable.exists_id?_internAll _ (List.mem_map.mpr ⟨e, he, hlhs.symm⟩)

theorem transcribes_of_foldlM {name : String} {entries : List Entry} {g : Grammar}
    (h : entries.foldlM addEntry (ofLeftHandSides name entries) = .ok g)
    (hsmall : g.nonTerminals.size < UInt32.size) : g.Transcribes (rulesOf entries) := by
  refine foldlM_addEntry_induction (fun _ hg hid => hg.addRule hid) ?_ h
  exact transcribes_ofLeftHandSides (by rwa [(tables_of_foldlM h).1] at hsmall)

/-- The checks before that of the unary rules leave a grammar that transcribes the rules, even if
there are empty alternatives among them. -/
theorem transcribes_unchecked {name : String} {start? : Option String} {entries : List Entry}
    {g : Grammar} (hfew : (entries.map Entry.lhs).dedup.length < UInt32.size)
    (h : unchecked name start? entries = .ok g) : g.Transcribes (rulesOf entries) := by
  obtain ⟨-, g₁, hrun, hstart⟩ := unchecked_eq_ok.mp h
  have hsmall : g₁.nonTerminals.size < UInt32.size := by
    rw [(tables_of_foldlM hrun).1]
    exact (SymbolTable.size_internAll _).trans_lt hfew
  have htranscribes := transcribes_of_foldlM hrun hsmall
  cases start? with
  | none => exact Except.ok.inj hstart ▸ htranscribes
  | some start => exact htranscribes.withStart hstart

theorem holds_of_foldlM {name : String} {entries : List Entry} {g : Grammar}
    (hentries : entries ≠ []) (hne : ∀ e ∈ entries, [] ∉ e.alternatives)
    (h : entries.foldlM addEntry (ofLeftHandSides name entries) = .ok g)
    (hsmall : g.nonTerminals.size < UInt32.size) : g.Holds (rulesOf entries) := by
  have hcoherent : g.Coherent := foldlM_addEntry_induction (P := fun g _ => g.Coherent)
    (fun hr hg _ => hg.addRule (ne_nil_of_mem_rulesOf hne hr))
    (coherent_ofLeftHandSides name hentries) h
  exact { hcoherent, transcribes_of_foldlM h hsmall with }

theorem tables_ofEntries {name : String} {start? : Option String} {entries : List Entry}
    {g : Grammar} (h : ofEntries name start? entries = .ok g) :
    g.nonTerminals = (∅ : SymbolTable).internAll (entries.map Entry.lhs) ∧
      g.terminals =
        (∅ : SymbolTable).internAll ((rulesOf entries).filterMap WrittenRule.word?) := by
  obtain ⟨-, g₁, hrun, hstart, -⟩ := ofEntries_eq_ok.mp h
  obtain ⟨hnames, hwords, -⟩ := tables_of_foldlM hrun
  cases start? with
  | none => exact Except.ok.inj hstart ▸ ⟨hnames, hwords⟩
  | some start =>
    obtain ⟨id, -, rfl⟩ := g₁.withStart_eq_ok.mp hstart
    exact ⟨hnames, hwords⟩

theorem holds_ofEntries {name : String} {start? : Option String} {entries : List Entry}
    {g : Grammar} (hne : ∀ e ∈ entries, [] ∉ e.alternatives)
    (h : ofEntries name start? entries = .ok g) (hsmall : g.nonTerminals.size < UInt32.size) :
    g.Holds (rulesOf entries) := by
  rw [(tables_ofEntries h).1] at hsmall
  obtain ⟨hentries, g₁, hrun, hstart, -⟩ := ofEntries_eq_ok.mp h
  have hholds := holds_of_foldlM hentries hne hrun (by rwa [(tables_of_foldlM hrun).1])
  cases start? with
  | none => exact Except.ok.inj hstart ▸ hholds
  | some start => exact hholds.withStart hstart

/-- The names of non-terminals are names, and words have characters. -/
structure Spelled (g : Grammar) : Prop where
  names {name : String} : name ∈ g.nonTerminals.names.toList → isName name.toList = true
  words {word : String} : word ∈ g.terminals.names.toList → word ≠ ""

theorem spelled_ofEntries {name : String} {start? : Option String} {entries : List Entry}
    {g : Grammar} (hvalid : ∀ e ∈ entries, e.Valid) (h : ofEntries name start? entries = .ok g) :
    g.Spelled := by
  obtain ⟨hnames, hwords⟩ := tables_ofEntries h
  constructor
  · intro name hname
    rw [hnames, SymbolTable.mem_names_internAll_empty] at hname
    obtain ⟨e, he, rfl⟩ := List.mem_map.mp hname
    exact (hvalid e he).lhs
  · intro word hword
    rw [hwords, SymbolTable.mem_names_internAll_empty, mem_words_rulesOf] at hword
    obtain ⟨e, he, ha⟩ := hword
    exact ((hvalid e he).symbols ha).2 (.word word) List.mem_cons_self

theorem Loaded.spelled {g : Grammar} (h : g.Loaded) : g.Spelled := by
  refine h.of_entries ?_ ?_ (fun _ _ hg => ⟨hg.names, hg.words⟩)
  · intro name start? entries g hvalid h
    exact spelled_ofEntries hvalid h
  · intro g name g' hg h
    obtain ⟨id, -, rfl⟩ := g.withStart_eq_ok.mp h
    exact ⟨hg.names, hg.words⟩

end Grammar

end PhraseStructure
