import Mathlib.Tactic
import PhraseStructure.Proofs.Multiplicity
import PhraseStructure.Proofs.Recognition
import PhraseStructure.Proofs.Validation

/-!
# The order of rules

Rules may be written in any order and grouped in any way. Ids, the order of alternatives and the
order of derivations change with it, but names, and the alternatives of each name up to their order,
do not. Whether a tree is a derivation tree and how often it is derived depends on these alone.
-/

namespace PhraseStructure

namespace Grammar

def writtenLabels (ts : List ParseTree) : WrittenAlternative := ts.map fun t => .name t.label

variable {g g' : Grammar}

theorem mem_wordsNamed (hg : g.Coherent) {word label : String} :
    word ∈ g.wordsNamed label ↔ [.word word] ∈ g.writtenNamed label := by
  unfold wordsNamed writtenNamed
  cases g.nonTerminals.id? label with
  | none => simp
  | some nt =>
    simp only [mem_wordsOf, writtenAlternatives, List.mem_map, map_written_eq_singleton,
      written_eq_word]
    constructor
    · rintro ⟨t, ht, hword⟩
      refine ⟨_, ht, _, rfl, t, rfl, ?_⟩
      rw [terminalText, hword, Option.getD_some]
    · rintro ⟨_, hp, _, rfl, t, rfl, rfl⟩
      exact ⟨t, hp, name?_terminalText ((hg.admits hp).terminal_lt List.mem_cons_self)⟩

section

variable (hg : g.Coherent) (hsmall : g.Small)
include hg hsmall

theorem map_some_eq_symbolsOf {p : Production}
    (hp : ∀ nt : SymbolId, .nonTerminal nt ∈ p → nt.toNat < g.rules.size) {ts : List ParseTree} :
    p.map some = g.symbolsOf ts ↔ p.map g.written = writtenLabels ts := by
  induction p generalizing ts with
  | nil => cases ts <;> simp [symbolsOf, writtenLabels]
  | cons s p ih =>
    cases ts with
    | nil => simp [symbolsOf, writtenLabels]
    | cons t ts =>
      have hsymbol : some s = (g.nonTerminals.id? t.label).map .nonTerminal ↔
          g.written s = .name t.label := by
        cases s with
        | terminal a => simp [written, eq_comm]
        | nonTerminal nt =>
          have hname := name?_nonTerminalText (hg.size_rules ▸ hp nt List.mem_cons_self)
          rw [eq_comm, Option.map_eq_some_iff]
          simp [written, hg.nonTerminals.id?_eq_some_iff hsmall.nonTerminals.le, hname]
      have hrest := @ih (fun nt hnt => hp nt (List.mem_cons_of_mem _ hnt)) ts
      rw [symbolsOf, writtenLabels] at hrest ⊢
      rw [List.map_cons, List.map_cons, List.map_cons, List.map_cons, List.cons_eq_cons,
        List.cons_eq_cons, hsymbol, hrest]

theorem expansions_eq_count_written (label : String) (ts : List ParseTree) :
    g.expansions label ts = (g.writtenNamed label).count (writtenLabels ts) := by
  unfold expansions alternativesNamed writtenNamed
  cases g.nonTerminals.id? label with
  | none => rfl
  | some nt =>
    dsimp only [writtenAlternatives]
    rw [List.count, List.countP_map]
    refine List.countP_congr fun p hp => ?_
    rw [decide_eq_true_iff, Function.comp_apply, beq_iff_eq]
    exact map_some_eq_symbolsOf hg hsmall fun nt => (hg.admits hp).nonTerminal_lt

theorem allows_node {label : String} {ts : List ParseTree} :
    g.Allows (.node label ts) ↔ writtenLabels ts ∈ g.writtenNamed label := by
  rw [← List.count_pos_iff, ← expansions_eq_count_written hg hsmall, expansions,
    List.countP_pos_iff]
  simp [Allows]

theorem knowsWord_iff_writtenNamed {word : String} :
    g.knowsWord word = true ↔ ∃ name, [.word word] ∈ g.writtenNamed name := by
  rw [hg.knowsWord_iff, ← hg.terminals.mem_names_iff]
  constructor
  · exact hg.exists_writtenNamed hsmall
  · rintro ⟨name, h⟩
    exact hg.mem_names_of_writtenNamed h

end

/-- Grammars with the same names, each with the same alternatives up to their order. -/
structure Alike (g g' : Grammar) : Prop where
  names (name : String) :
    name ∈ g.nonTerminals.names.toList ↔ name ∈ g'.nonTerminals.names.toList
  alternatives (name : String) : (g.writtenNamed name).Perm (g'.writtenNamed name)

namespace Alike

variable (h : g.Alike g') (hg : g.WellFormed) (hsmall : g.Small) (hg' : g'.WellFormed)
  (hsmall' : g'.Small)
include h hg hsmall hg' hsmall'

theorem knowsWord_eq (word : String) : g.knowsWord word = g'.knowsWord word := by
  rw [Bool.eq_iff_iff, knowsWord_iff_writtenNamed hg.toCoherent hsmall,
    knowsWord_iff_writtenNamed hg'.toCoherent hsmall']
  exact exists_congr fun name => (h.alternatives name).mem_iff

theorem allows_iff {t : ParseTree} : g.Allows t ↔ g'.Allows t := by
  cases t with
  | leaf label word =>
    change word ∈ g.wordsNamed label ↔ word ∈ g'.wordsNamed label
    rw [mem_wordsNamed hg.toCoherent, mem_wordsNamed hg'.toCoherent]
    exact (h.alternatives label).mem_iff
  | node label ts =>
    rw [allows_node hg.toCoherent hsmall, allows_node hg'.toCoherent hsmall']
    exact (h.alternatives label).mem_iff

theorem derives_iff {t : ParseTree} : g.Derives t ↔ g'.Derives t :=
  forall₂_congr fun _ _ => h.allows_iff hg hsmall hg' hsmall'

theorem multiplicity_eq (t : ParseTree) : g.multiplicity t = g'.multiplicity t := by
  refine congrArg List.prod (List.map_congr_left fun s _ => ?_)
  cases s with
  | leaf label word => rfl
  | node label ts =>
    rw [choicesAt, choicesAt, expansions_eq_count_written hg.toCoherent hsmall,
      expansions_eq_count_written hg'.toCoherent hsmall']
    exact (h.alternatives label).count_eq _

/-- Each derivation tree is derived as often from one grammar as from the other, and no other tree
is derived at all. -/
theorem perm_trees {start : String} {nt nt' : SymbolId} (hnt : g.nonTerminals.id? start = some nt)
    (hnt' : g'.nonTerminals.id? start = some nt') {words : List String}
    {tokens tokens' : List SymbolId} (hids : g.Spells words tokens)
    (hids' : g'.Spells words tokens') :
    ((Chart.ofTerminals g tokens).trees ⟨0, tokens.length, nt⟩).Perm
      ((Chart.ofTerminals g' tokens').trees ⟨0, tokens'.length, nt'⟩) := by
  rw [← hids.length_eq, ← hids'.length_eq, List.perm_iff_count]
  intro t
  have hroot : g'.DerivesEdge words t ⟨0, words.length, nt'⟩ ↔
      g.DerivesEdge words t ⟨0, words.length, nt⟩ := by
    rw [derivesEdge_root_iff hg.toCoherent hsmall hnt,
      derivesEdge_root_iff hg'.toCoherent hsmall' hnt', h.derives_iff hg hsmall hg' hsmall']
  by_cases hedge : g.DerivesEdge words t ⟨0, words.length, nt⟩
  · rw [Chart.count_trees hg hsmall hids hedge,
      Chart.count_trees hg' hsmall' hids' (hroot.mpr hedge),
      h.multiplicity_eq hg hsmall hg' hsmall']
  · have hnone : t ∉ (Chart.ofTerminals g tokens).trees ⟨0, words.length, nt⟩ :=
      fun ht => hedge (Chart.derivesEdge_of_mem_trees hg hsmall hids ht)
    have hnone' : t ∉ (Chart.ofTerminals g' tokens').trees ⟨0, words.length, nt'⟩ :=
      fun ht => hedge (hroot.mp (Chart.derivesEdge_of_mem_trees hg' hsmall' hids' ht))
    rw [List.count_eq_zero.mpr hnone, List.count_eq_zero.mpr hnone']

theorem ofTokens_eq_error_iff {words : List String} {u : UnknownWord} :
    Chart.ofTokens g words = .error u ↔ Chart.ofTokens g' words = .error u := by
  rw [Chart.ofTokens_eq_error hg.toCoherent, Chart.ofTokens_eq_error hg'.toCoherent]
  simp only [h.knowsWord_eq hg hsmall hg' hsmall']

end Alike

/-- Outcomes of two parses that differ in nothing but the order of the trees: the same error, or
derivations that yield the same trees equally often and are counted alike. -/
inductive Agree (nt nt' : SymbolId) :
    Except ParseError Derivations → Except ParseError Derivations → Prop
  | error (e : ParseError) : Agree nt nt' (.error e) (.error e)
  | ok {d d' : Derivations} {ts ts' : List ParseTree} :
      d.Yields ts → d'.Yields ts' → ts.Perm ts' →
        d.chart.derivationCount nt = d'.chart.derivationCount nt' → Agree nt nt' (.ok d) (.ok d')

theorem Alike.agree (h : g.Alike g') (hg : g.WellFormed) (hsmall : g.Small) (hg' : g'.WellFormed)
    (hsmall' : g'.Small) {start : String} {nt nt' : SymbolId}
    (hnt : g.nonTerminals.id? start = some nt) (hnt' : g'.nonTerminals.id? start = some nt')
    (words : List String) : Agree nt nt' (g.parse start words) (g'.parse start words) := by
  unfold parse
  rw [hnt, hnt']
  cases hchart : Chart.ofTokens g words with
  | error u =>
    rw [(h.ofTokens_eq_error_iff hg hsmall hg' hsmall').mp hchart]
    exact .error _
  | ok c =>
    cases hchart' : Chart.ofTokens g' words with
    | error u =>
      rw [(h.ofTokens_eq_error_iff hg hsmall hg' hsmall').mpr hchart'] at hchart
      cases hchart
    | ok c' =>
      obtain ⟨tokens, hids, rfl⟩ := Chart.ofTokens_eq_ok.mp hchart
      obtain ⟨tokens', hids', rfl⟩ := Chart.ofTokens_eq_ok.mp hchart'
      obtain ⟨rank, hranked⟩ := Chart.exists_ranked hg tokens
      obtain ⟨rank', hranked'⟩ := Chart.exists_ranked hg' tokens'
      have hperm := h.perm_trees hg hsmall hg' hsmall' hnt hnt' hids hids'
      refine .ok (hranked.yields_derivations nt) (hranked'.yields_derivations nt') hperm ?_
      exact (hranked.derivationCount_eq_length nt).trans
        ((congrArg (min · countLimit) hperm.length_eq).trans
          (hranked'.derivationCount_eq_length nt').symm)

/-- Entries with the same left-hand sides and the same rules, in any order and grouping. -/
structure Reorders (entries entries' : List Entry) : Prop where
  names (name : String) : name ∈ entries.map Entry.lhs ↔ name ∈ entries'.map Entry.lhs
  rules : (rulesOf entries).Perm (rulesOf entries')

namespace Reorders

variable {entries entries' : List Entry} (h : Reorders entries entries')
include h

theorem symm : Reorders entries' entries where
  names name := (h.names name).symm
  rules := h.rules.symm

theorem nil_notMem (hne : ∀ e ∈ entries, [] ∉ e.alternatives) :
    ∀ e ∈ entries', [] ∉ e.alternatives := by
  intro e he hnil
  have hrule : ⟨e.lhs, []⟩ ∈ rulesOf entries' := mem_rulesOf.mpr ⟨e, he, rfl, hnil⟩
  obtain ⟨e', he', -, hnil'⟩ := mem_rulesOf.mp (h.rules.mem_iff.mpr hrule)
  exact hne e' he' hnil'

theorem fewSymbols (hfew : FewSymbols entries) : FewSymbols entries' where
  names := by
    have hperm := (List.perm_ext_iff_of_nodup (List.nodup_dedup _) (List.nodup_dedup _)).mpr
      fun name => by simpa only [List.mem_dedup] using h.names name
    exact hperm.length_eq ▸ hfew.names
  words := (h.rules.filterMap WrittenRule.word?).dedup.length_eq ▸ hfew.words

theorem acceptable (hacceptable : Acceptable none entries) : Acceptable none entries' where
  ne_nil := by
    rintro rfl
    exact hacceptable.ne_nil (List.map_eq_nil_iff.mp (List.eq_nil_iff_forall_not_mem.mpr
      fun name hname => List.not_mem_nil ((h.names name).mp hname)))
  fits {r} hr := by
    refine (hacceptable.fits (h.rules.mem_iff.mpr hr)).imp id fun hsymbols s hs => ?_
    obtain ⟨name, hname, rfl⟩ := hsymbols s hs
    exact ⟨name, (h.names name).mp hname, rfl⟩
  start := nofun
  acyclic name := by
    have hsame : LeadsTo entries' = LeadsTo entries := by
      funext a b
      rw [leadsTo_iff, leadsTo_iff, h.rules.mem_iff]
    rw [hsame]
    exact hacceptable.acyclic name

theorem alike {name name' : String} (hne : ∀ e ∈ entries, [] ∉ e.alternatives)
    (hfew : FewSymbols entries) {g g' : Grammar} (hg : ofEntries name none entries = .ok g)
    (hg' : ofEntries name' none entries' = .ok g') : g.Alike g' := by
  have hsmall := small_of_tables hfew (tables_ofEntries hg)
  have hsmall' := small_of_tables (h.fewSymbols hfew) (tables_ofEntries hg')
  have hholds := holds_ofEntries hne hg hsmall.nonTerminals
  have hholds' := holds_ofEntries (h.nil_notMem hne) hg' hsmall'.nonTerminals
  constructor
  · intro name
    rw [(tables_ofEntries hg).1, (tables_ofEntries hg').1,
      SymbolTable.mem_names_internAll_empty, SymbolTable.mem_names_internAll_empty, h.names]
  · intro name
    rw [hholds.writtenNamed hsmall, hholds'.writtenNamed hsmall']
    exact (h.rules.filter _).map _

end Reorders

/-- Entries in another order and grouping make a grammar exactly if the entries do, and then any
sentence is parsed alike from any name: with the same error, or with the same trees in some order
and the same count. -/
theorem agree_of_reorders {entries entries' : List Entry} (h : Reorders entries entries')
    (hne : ∀ e ∈ entries, [] ∉ e.alternatives) (hfew : FewSymbols entries) (name name' : String) :
    ((∃ g, ofEntries name none entries = .ok g) ↔ ∃ g', ofEntries name' none entries' = .ok g') ∧
      ∀ g g', ofEntries name none entries = .ok g → ofEntries name' none entries' = .ok g' →
        ∀ start ∈ entries.map Entry.lhs, ∀ words, ∃ nt nt',
          g.nonTerminals.id? start = some nt ∧ g'.nonTerminals.id? start = some nt' ∧
            Agree nt nt' (g.parse start words) (g'.parse start words) := by
  have hne' := h.nil_notMem hne
  have hfew' := h.fewSymbols hfew
  constructor
  · rw [exists_ofEntries_iff hne hfew, exists_ofEntries_iff hne' hfew']
    exact ⟨h.acceptable, h.symm.acceptable⟩
  · intro g g' hg hg' start hstart words
    have hsmall := small_of_tables hfew (tables_ofEntries hg)
    have hsmall' := small_of_tables hfew' (tables_ofEntries hg')
    have hmem : start ∈ g.nonTerminals.names.toList := by
      rw [(tables_ofEntries hg).1, SymbolTable.lawful_empty.mem_names_internAll]
      exact Or.inr hstart
    have halike := h.alike hne hfew hg hg'
    have hwell := wellFormed_ofEntries hne hg
    have hwell' := wellFormed_ofEntries hne' hg'
    obtain ⟨nt, hnt⟩ := hwell.nonTerminals.mem_names_iff.mp hmem
    obtain ⟨nt', hnt'⟩ := hwell'.nonTerminals.mem_names_iff.mp ((halike.names start).mp hmem)
    exact ⟨nt, nt', hnt, hnt', halike.agree hwell hsmall hwell' hsmall' hnt hnt' words⟩

def bracketingEntries : List Entry :=
  [⟨"S", [[.name "S", .name "S"], [.name "N"]]⟩, ⟨"N", [[.word "a"]]⟩]

/-- The same rules from the bottom up, one a line. -/
def reversedEntries : List Entry :=
  [⟨"N", [[.word "a"]]⟩, ⟨"S", [[.name "N"]]⟩, ⟨"S", [[.name "S", .name "S"]]⟩]

/-- Three words have the same two bracketings, though the ids of the names are others. -/
theorem agree_bracketings : ∃ g g' nt nt', ofEntries "down" none bracketingEntries = .ok g ∧
    ofEntries "up" none reversedEntries = .ok g' ∧ nt ≠ nt' ∧
      Agree nt nt' (g.parse "S" ["a", "a", "a"]) (g'.parse "S" ["a", "a", "a"]) := by
  have hreorders : Reorders bracketingEntries reversedEntries := by
    constructor
    · intro name
      simp [bracketingEntries, reversedEntries, or_comm]
    · decide +kernel
  have hfew : FewSymbols bracketingEntries := ⟨by decide +kernel, by decide +kernel⟩
  let down := (ofEntries "down" none bracketingEntries).toOption.get (by decide +kernel)
  let up := (ofEntries "up" none reversedEntries).toOption.get (by decide +kernel)
  have hdown : ofEntries "down" none bracketingEntries = .ok down := Except.eq_ok_get _
  have hup : ofEntries "up" none reversedEntries = .ok up := Except.eq_ok_get _
  obtain ⟨-, hagree⟩ := agree_of_reorders hreorders (by decide +kernel) hfew "down" "up"
  obtain ⟨nt, nt', hnt, hnt', h⟩ :=
    hagree down up hdown hup "S" (by decide +kernel) ["a", "a", "a"]
  have hne : down.nonTerminals.id? "S" ≠ up.nonTerminals.id? "S" := by decide +kernel
  refine ⟨down, up, nt, nt', hdown, hup, ?_, h⟩
  rintro rfl
  exact hne (hnt.trans hnt'.symm)

end Grammar

end PhraseStructure
