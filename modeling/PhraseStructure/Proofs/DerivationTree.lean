import Mathlib.Tactic
import PhraseStructure.Proofs.Chunk
import PhraseStructure.Proofs.Enumeration
import PhraseStructure.Proofs.Representation

/-!
# Derivation trees

A tree is a derivation tree of a grammar if each leaf has a word of its label and the labels below
each inner node are an alternative of its label. The trees of an edge are derivation trees over the
words of its stretch, and so are all trees that are pulled from a parse.
-/

namespace PhraseStructure

namespace Grammar

variable (g : Grammar)

/-- The labels of trees, read as non-terminals. -/
def symbolsOf (ts : List ParseTree) : List (Option Symbol) :=
  ts.map fun t => (g.nonTerminals.id? t.label).map .nonTerminal

def alternativesNamed (name : String) : List Production :=
  match g.nonTerminals.id? name with
  | none => []
  | some nt => g.alternatives nt

def wordsNamed (name : String) : List String :=
  match g.nonTerminals.id? name with
  | none => []
  | some nt => g.wordsOf nt

/-- Whether the root of a tree is by a rule of the grammar. -/
def Allows : ParseTree → Prop
  | .leaf label word => word ∈ g.wordsNamed label
  | .node label ts => ∃ p ∈ g.alternativesNamed label, p.map some = g.symbolsOf ts

/-- A derivation tree: each node is by a rule. -/
def Derives (t : ParseTree) : Prop := ∀ s ∈ t.subtrees, g.Allows s

variable {g}

theorem alternativesNamed_of_id? {name : String} {nt : SymbolId}
    (h : g.nonTerminals.id? name = some nt) : g.alternativesNamed name = g.alternatives nt := by
  unfold alternativesNamed
  rw [h]

theorem wordsNamed_of_id? {name : String} {nt : SymbolId}
    (h : g.nonTerminals.id? name = some nt) : g.wordsNamed name = g.wordsOf nt := by
  unfold wordsNamed
  rw [h]

theorem derives_leaf {label word : String} :
    g.Derives (.leaf label word) ↔ word ∈ g.wordsNamed label := by
  unfold Derives
  rw [ParseTree.subtrees, List.forall_mem_singleton]
  rfl

theorem derives_node {label : String} {ts : List ParseTree} :
    g.Derives (.node label ts) ↔
      (∃ p ∈ g.alternativesNamed label, p.map some = g.symbolsOf ts) ∧ ∀ t ∈ ts, g.Derives t := by
  unfold Derives
  rw [ParseTree.subtrees, ParseTree.subtreesAll_eq_flatMap, List.forall_mem_cons]
  apply and_congr Iff.rfl
  simp only [List.mem_flatMap]
  constructor
  · intro h t ht s hs
    exact h s ⟨t, ht, hs⟩
  · rintro h s ⟨t, ht, hs⟩
    exact h t ht s hs

theorem Derives.subtree {s t : ParseTree} (h : g.Derives t) (hs : s ∈ t.subtrees) : g.Derives s :=
  fun r hr => h r (ParseTree.subtrees_subset hs hr)

theorem Coherent.ne_nil_of_allows (hg : g.Coherent) {label : String} {ts : List ParseTree}
    (h : g.Allows (.node label ts)) : ts ≠ [] := by
  obtain ⟨p, hp, hsymbols⟩ := h
  rintro rfl
  have hnil : p = [] := List.map_eq_nil_iff.mp hsymbols
  cases hid : g.nonTerminals.id? label with
  | none => simp [alternativesNamed, hid] at hp
  | some nt =>
    rw [alternativesNamed_of_id? hid] at hp
    exact (hg.admits hp).ne_nil hnil

theorem Coherent.words_ne_nil (hg : g.Coherent) {t : ParseTree} (h : g.Derives t) :
    t.words ≠ [] := by
  induction t with
  | leaf label word => exact List.cons_ne_nil _ _
  | node label ts ih =>
    obtain ⟨hallows, hall⟩ := derives_node.mp h
    obtain ⟨t, ts, rfl⟩ := List.exists_cons_of_ne_nil (hg.ne_nil_of_allows hallows)
    have ht := ih t List.mem_cons_self (hall t List.mem_cons_self)
    rw [ParseTree.words_node, List.flatMap_cons]
    exact List.append_ne_nil_of_left_ne_nil ht _

/-- A derivation tree of an edge: its root has the category of the edge, and its words are those of
the stretch. -/
structure DerivesEdge (g : Grammar) (words : List String) (t : ParseTree) (e : Edge) : Prop where
  stop_le : e.stop ≤ words.length
  label : g.nonTerminals.id? t.label = some e.category
  derives : g.Derives t
  words_eq : t.words = stretch words e.start e.stop

theorem derivesEdge_root_iff (hg : g.Coherent) (hsmall : g.Small) {start : String} {nt : SymbolId}
    (hstart : g.nonTerminals.id? start = some nt) {words : List String} {t : ParseTree} :
    g.DerivesEdge words t ⟨0, words.length, nt⟩ ↔
      t.label = start ∧ t.words = words ∧ g.Derives t := by
  have hname := (hg.nonTerminals.id?_eq_some_iff hsmall.nonTerminals.le).mp hstart
  constructor
  · intro h
    have hlabel := (hg.nonTerminals.id?_eq_some_iff hsmall.nonTerminals.le).mp h.label
    exact ⟨Option.some.inj (hlabel.symm.trans hname), h.words_eq.trans (stretch_all words),
      h.derives⟩
  · rintro ⟨rfl, hwords, hderives⟩
    exact ⟨le_rfl, hstart, hderives, hwords.trans (stretch_all words).symm⟩

theorem symbolsOf_eq {words : List String} {ts : List ParseTree} {cs : List Edge}
    (h : List.Forall₂ (g.DerivesEdge words) ts cs) :
    g.symbolsOf ts = (cs.map Edge.symbol).map some := by
  unfold symbolsOf
  rw [List.map_map]
  refine map_eq_map_of_forall₂ (h.imp fun t e hte => ?_)
  rw [hte.label]
  rfl

theorem exists_id?_of_symbolsOf {ts : List ParseTree} {p : Production}
    (h : p.map some = g.symbolsOf ts) {t : ParseTree} (ht : t ∈ ts) :
    ∃ nt, g.nonTerminals.id? t.label = some nt ∧ .nonTerminal nt ∈ p := by
  have hmem : (g.nonTerminals.id? t.label).map .nonTerminal ∈ p.map some := by
    rw [h]
    exact List.mem_map_of_mem ht
  obtain ⟨s, hs, heq⟩ := List.mem_map.mp hmem
  obtain ⟨nt, hnt, rfl⟩ := Option.map_eq_some_iff.mp heq.symm
  exact ⟨nt, hnt, hs⟩

theorem flatMap_words_eq {words : List String} {ts : List ParseTree} {cs : List Edge}
    (h : List.Forall₂ (g.DerivesEdge words) ts cs) :
    ts.flatMap ParseTree.words = cs.flatMap fun e => stretch words e.start e.stop := by
  rw [List.flatMap_def, List.flatMap_def]
  exact congrArg List.flatten (map_eq_map_of_forall₂ (h.imp fun _ _ hte => hte.words_eq))

theorem derives_of_forall₂ {words : List String} {ts : List ParseTree} {cs : List Edge}
    (h : List.Forall₂ (g.DerivesEdge words) ts cs) : ∀ t ∈ ts, g.Derives t := by
  have hboth : List.Forall₂ (fun t e => g.Derives t ∧ g.DerivesEdge words t e) ts cs :=
    h.imp fun _ _ hte => ⟨hte.derives, hte⟩
  exact ((List.forall₂_and_left ts cs).mp hboth).1

end Grammar

namespace Chart

variable {g : Grammar} {words : List String} {tokens : List SymbolId}

theorem derivesEdge_of_mem_trees (hg : g.WellFormed) (hsmall : g.Small)
    (hids : g.Spells words tokens) {e : Edge} {t : ParseTree}
    (ht : t ∈ (ofTerminals g tokens).trees e) : g.DerivesEdge words t e := by
  obtain ⟨rank, hranked⟩ := exists_ranked hg tokens
  induction e using hranked.induction generalizing t with
  | _ e ih =>
    rw [hranked.trees_eq] at ht
    obtain ⟨way, hway, ht⟩ := List.mem_flatMap.mp ht
    obtain ⟨ts, hts, rfl⟩ := List.mem_map.mp ht
    have hne := List.ne_nil_of_mem hway
    have hstop : e.stop ≤ words.length := by
      rw [hids.length_eq]
      exact (bounds_of_ways_ne_nil hne).2
    have hlabel : g.nonTerminals.id? (g.nonTerminalText e.category) = some e.category := by
      rw [hg.nonTerminals.id?_eq_some_iff hsmall.nonTerminals.le]
      exact Grammar.name?_nonTerminalText (hg.size_rules ▸ lt_size_of_ways_ne_nil hg.toCoherent hne)
    cases way with
    | word a =>
      obtain ⟨hone, ha, halternative⟩ := (word_mem_ways hg.toCoherent).mp hway
      obtain ⟨word, hword, hid⟩ := hids.getElem?_eq_some.mp ha
      have htext := hg.terminalText_of_id? hsmall hid
      change g.DerivesEdge words (.leaf (g.nonTerminalText e.category) (g.terminalText a)) e
      rw [htext]
      refine ⟨hstop, hlabel, Grammar.derives_leaf.mpr ?_, ?_⟩
      · rw [Grammar.wordsNamed_of_id? hlabel, Grammar.mem_wordsOf]
        exact ⟨a, halternative, (hg.terminals.id?_eq_some_iff hsmall.terminals.le).mp hid⟩
      · rw [hone, stretch_succ hword]
        rfl
    | split i cs =>
      obtain ⟨halternative, -, htiles, -, -⟩ := (split_mem_ways hg.toCoherent).mp hway
      have hall : List.Forall₂ (g.DerivesEdge words) ts cs :=
        forall₂_of_mem_choices hts fun x hx t ht => ih _ hway x hx ht
      change g.DerivesEdge words (.node (g.nonTerminalText e.category) ts) e
      refine ⟨hstop, hlabel, Grammar.derives_node.mpr ⟨⟨cs.map Edge.symbol, ?_, ?_⟩, ?_⟩, ?_⟩
      · rw [Grammar.alternativesNamed_of_id? hlabel]
        exact List.mem_of_getElem? halternative
      · exact (Grammar.symbolsOf_eq hall).symm
      · exact Grammar.derives_of_forall₂ hall
      · rw [← htiles.flatMap_stretch words, ← Grammar.flatMap_words_eq hall]
        exact ParseTree.words_node _ ts

end Chart

theorem Grammar.parse_eq_ok {g : Grammar} {start : String} {words : List String}
    {d : Derivations} :
    g.parse start words = .ok d ↔
      ∃ nt tokens, g.nonTerminals.id? start = some nt ∧ g.Spells words tokens ∧
        d = (Chart.ofTerminals g tokens).derivations nt := by
  unfold Grammar.parse
  cases hstart : g.nonTerminals.id? start with
  | none => simp
  | some nt =>
    rw [Except.map_eq_ok]
    simp only [Except.mapError_eq_ok, Chart.ofTokens_eq_ok]
    constructor
    · intro h
      obtain ⟨c, ⟨tokens, hids, rfl⟩, rfl⟩ := h
      exact ⟨nt, tokens, rfl, hids, rfl⟩
    · rintro ⟨nt', tokens, hnt, hids, rfl⟩
      obtain rfl := Option.some.inj hnt
      exact ⟨_, ⟨tokens, hids, rfl⟩, rfl⟩

theorem Grammar.derives_of_parse {g : Grammar} (hg : g.WellFormed) (hsmall : g.Small)
    {start : String} {words : List String} {d : Derivations} (h : g.parse start words = .ok d)
    {n : Nat} {t : ParseTree} (ht : (d.after n).next.1 = some t) :
    t.label = start ∧ t.words = words ∧ g.Derives t := by
  obtain ⟨nt, tokens, hstart, hids, rfl⟩ := parse_eq_ok.mp h
  obtain ⟨rank, hranked⟩ := Chart.exists_ranked hg tokens
  rw [hranked.yields_derivations nt n] at ht
  have hedge := Chart.derivesEdge_of_mem_trees hg hsmall hids (List.mem_of_getElem? ht)
  apply (derivesEdge_root_iff hg.toCoherent hsmall hstart).mp
  rwa [hids.length_eq]

/-- Each tree that is pulled from a parse is a derivation tree of the start symbol over the words.
Its inner nodes have children. -/
theorem Grammar.sound_of_parse {g : Grammar} (hloaded : g.Loaded) (hsmall : g.Small)
    {start : String} {words : List String} {d : Derivations} (h : g.parse start words = .ok d)
    {n : Nat} {t : ParseTree} (ht : (d.after n).next.1 = some t) :
    t.label = start ∧ t.words = words ∧
      ∀ s ∈ t.subtrees, g.Allows s ∧ (s.isLeaf = false → s.children ≠ []) := by
  have hg := hloaded.wellFormed
  obtain ⟨nt, tokens, hstart, hids, rfl⟩ := Grammar.parse_eq_ok.mp h
  obtain ⟨rank, hranked⟩ := Chart.exists_ranked hg tokens
  rw [hranked.yields_derivations nt n] at ht
  have hedge := Chart.derivesEdge_of_mem_trees hg hsmall hids (List.mem_of_getElem? ht)
  have hroot : g.DerivesEdge words t ⟨0, words.length, nt⟩ := by
    rw [hids.length_eq]
    exact hedge
  obtain ⟨hlabel, hwords, hderives⟩ :=
    (Grammar.derivesEdge_root_iff hg.toCoherent hsmall hstart).mp hroot
  refine ⟨hlabel, hwords, fun s hs => ⟨hderives s hs, fun hinner => ?_⟩⟩
  cases s with
  | leaf label word => cases hinner
  | node label ts => exact hg.ne_nil_of_allows (hderives _ hs)

theorem Grammar.parse_bracketings :
    Grammar.bracketings.parse "S" ["a", "a", "a"] =
      .ok ((Chart.ofTerminals .bracketings [0, 0, 0]).derivations 0) :=
  Grammar.parse_eq_ok.mpr ⟨0, [0, 0, 0], by decide +kernel, Chart.spells_bracketings, rfl⟩

theorem Grammar.sound_second_bracketing :
    ∃ t, (((Chart.ofTerminals .bracketings [0, 0, 0]).derivations 0).after 1).next.1 = some t ∧
      t.label = "S" ∧ t.words = ["a", "a", "a"] ∧
        ∀ s ∈ t.subtrees, Grammar.bracketings.Allows s ∧ (s.isLeaf = false → s.children ≠ []) := by
  have hsome : (((Chart.ofTerminals .bracketings [0, 0, 0]).derivations 0).after
      1).next.1.isSome = true := by decide +kernel
  obtain ⟨t, ht⟩ := Option.isSome_iff_exists.mp hsome
  have hsound := Grammar.sound_of_parse Grammar.loaded_bracketings Grammar.small_bracketings
    Grammar.parse_bracketings ht
  exact ⟨t, ht, hsound⟩

end PhraseStructure
