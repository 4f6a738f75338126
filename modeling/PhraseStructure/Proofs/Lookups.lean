import Mathlib.Tactic
import PhraseStructure.Proofs.Display
import PhraseStructure.Proofs.Pulls
import PhraseStructure.Proofs.Table

/-!
# No lookup fails

Ids, ways and cells are kept apart from what they stand for, and looked up when they are needed.
Below, the reading of rule entries, the rule text of a grammar and the pulls from a chart are written
once more, so that they give up, with nothing, where a lookup fails, instead of going on with a
default. None of them ever gives up: a left-hand side is numbered before its alternatives are read,
a grammar uses no id without a name, and a cursor stands at one of the ways of its edge.
-/

namespace PhraseStructure

namespace Grammar

/-- The alternatives of a non-terminal, if there is a place for them. -/
def alternatives? (g : Grammar) (nt : SymbolId) : Option (List Production) := g.rules[nt.toNat]?

/-- Adds the alternatives of an entry, unless its left-hand side has no id, or the id has no place
for alternatives. -/
def addEntry? (g : Grammar) (entry : Entry) : ExceptT GrammarError Option Grammar := do
  let id ← g.nonTerminals.id? entry.lhs
  let _ ← g.alternatives? id
  g.addEntry entry

def definedId? (g : Grammar) (name : String) : ExceptT GrammarError Option SymbolId :=
  match g.nonTerminals.id? name with
  | some id => do
    let alternatives ← g.alternatives? id
    if alternatives.isEmpty then throw (.unknownStart name) else return id
  | none => throw (.unknownStart name)

def withStart? (g : Grammar) (name : String) : ExceptT GrammarError Option Grammar := do
  let start ← g.definedId? name
  return { g with start }

def checkUnaryCycles? (g : Grammar) : ExceptT GrammarError Option Unit :=
  match g.unaryCycle? with
  | none => return ()
  | some culprit => do
    let name ← g.nonTerminals.name? culprit
    throw (.unaryCycle name)

def ofEntries? (name : String) (start? : Option String) (entries : List Entry) :
    ExceptT GrammarError Option Grammar :=
  if entries.isEmpty then throw .empty
  else do
    let g ← entries.foldlM addEntry? (ofLeftHandSides name entries)
    let g ← match start? with
      | some start => g.withStart? start
      | none => pure g
    g.checkUnaryCycles?
    return g

def symbolText? (g : Grammar) : Symbol → Option String
  | .terminal t => do return "\"" ++ (← g.terminals.name? t) ++ "\""
  | .nonTerminal nt => g.nonTerminals.name? nt

def alternativeText? (g : Grammar) (alternative : Production) : Option String := do
  return " ".intercalate (← alternative.mapM g.symbolText?)

def ruleLine? (g : Grammar) (nt : SymbolId) : Option String := do
  let name ← g.nonTerminals.name? nt
  let alternatives ← (g.alternatives nt).mapM g.alternativeText?
  return name ++ " -> " ++ " | ".intercalate alternatives

def ruleText? (g : Grammar) : Option String := do
  let lines ← g.displayOrder.mapM fun nt => return (← g.ruleLine? nt) ++ "\n"
  return String.join lines

/-- No lookup in a grammar fails. -/
structure Total (g : Grammar) : Prop where
  withStart (name : String) : (g.withStart? name).run = some (g.withStart name)
  startName : ∃ name, g.startName? = some name
  ruleText : g.ruleText? = some g.ruleText

variable {g : Grammar}

/-- There is a list of alternatives for each id of a name. -/
abbrev Sized (g : Grammar) : Prop :=
  g.nonTerminals.Lawful ∧ g.rules.size = g.nonTerminals.size

theorem Sized.alternatives?_eq (hg : g.Sized) {name : String} {id : SymbolId}
    (h : g.nonTerminals.id? name = some id) : g.alternatives? id = some (g.alternatives id) := by
  have hlt : id.toNat < g.rules.size := hg.2 ▸ hg.1.toNat_lt h
  rw [alternatives, alternatives?, Array.getElem?_eq_getElem hlt, Option.getD_some]

theorem run_lookup {α β : Type} {x : Option α} {a : α} (h : x = some a)
    (f : α → ExceptT GrammarError Option β) :
    ((liftM x : ExceptT GrammarError Option α) >>= f).run = (f a).run := by
  rw [h]
  rfl

theorem run_definedId? (hg : g.Sized) (name : String) :
    (g.definedId? name).run = some (g.definedId name) := by
  unfold definedId? definedId
  cases h : g.nonTerminals.id? name with
  | none => rfl
  | some id =>
    dsimp only
    rw [run_lookup (hg.alternatives?_eq h)]
    split_ifs <;> rfl

theorem run_withStart? (hg : g.Sized) (name : String) :
    (g.withStart? name).run = some (g.withStart name) := by
  unfold withStart? withStart
  rw [ExceptT.run_bind, run_definedId? hg]
  cases g.definedId name <;> rfl

theorem lt_of_unaryCycle? {culprit : SymbolId} (h : g.unaryCycle? = some culprit) :
    culprit.toNat < g.rules.size := by
  unfold unaryCycle? at h
  split at h
  · cases h
  · next hsearch =>
    obtain rfl := Option.some.inj h
    obtain ⟨child, hchild, -⟩ :=
      Relation.TransGen.head'_iff.mp (UnaryCycle.transGen_of_searchAll hsearch)
    exact lt_size_rules (g.mem_unaryTargets.mp hchild)

theorem run_checkUnaryCycles? (hg : g.Sized) :
    g.checkUnaryCycles?.run = some g.checkUnaryCycles := by
  unfold checkUnaryCycles? checkUnaryCycles
  cases h : g.unaryCycle? with
  | none => rfl
  | some culprit =>
    have hname := name?_nonTerminalText (hg.2 ▸ lt_of_unaryCycle? h)
    dsimp only
    rw [hname]
    rfl

theorem run_addEntry? (hg : g.Sized) {entry : Entry}
    (h : ∃ id, g.nonTerminals.id? entry.lhs = some id) :
    (g.addEntry? entry).run = some (g.addEntry entry) := by
  obtain ⟨id, hid⟩ := h
  unfold addEntry?
  rw [run_lookup hid, run_lookup (hg.alternatives?_eq hid)]
  rfl

theorem tables_of_addEntry {entry : Entry} {g' : Grammar} (h : g.addEntry entry = .ok g') :
    g'.nonTerminals = g.nonTerminals ∧ g'.rules.size = g.rules.size := by
  refine Except.foldlM_invariant
    (P := fun s => s.nonTerminals = g.nonTerminals ∧ s.rules.size = g.rules.size) ?_ ⟨rfl, rfl⟩ h
  intro s s' alternative _ hs hstep
  have hrule : s.addRule ⟨entry.lhs, alternative⟩ = .ok s' := hstep
  exact ⟨(adds_of_addRule hrule).nonTerminals.trans hs.1, (size_rules_of_addRule hrule).trans hs.2⟩

theorem Sized.addEntry (hg : g.Sized) {entry : Entry} {g' : Grammar}
    (h : g.addEntry entry = .ok g') : g'.Sized := by
  obtain ⟨hnames, hsize⟩ := tables_of_addEntry h
  exact ⟨hnames ▸ hg.1, hsize.trans (hnames ▸ hg.2)⟩

theorem run_foldlM_addEntry? (hg : g.Sized) {entries : List Entry}
    (h : ∀ entry ∈ entries, ∃ id, g.nonTerminals.id? entry.lhs = some id) :
    (entries.foldlM addEntry? g).run = some (entries.foldlM Grammar.addEntry g) := by
  induction entries generalizing g with
  | nil => rfl
  | cons entry entries ih =>
    obtain ⟨hentry, hentries⟩ := List.forall_mem_cons.mp h
    rw [List.foldlM_cons, List.foldlM_cons, ExceptT.run_bind, run_addEntry? hg hentry]
    cases hadd : g.addEntry entry with
    | error e => rfl
    | ok g' => exact ih (hg.addEntry hadd) ((tables_of_addEntry hadd).1 ▸ hentries)

/-- Entries are read without a lookup that fails, whether they are accepted or not. -/
theorem run_ofEntries? (name : String) (start? : Option String) (entries : List Entry) :
    (ofEntries? name start? entries).run = some (ofEntries name start? entries) := by
  have hsized : (ofLeftHandSides name entries).Sized :=
    ⟨SymbolTable.lawful_empty.internAll _, Array.size_replicate⟩
  have hnames : ∀ entry ∈ entries,
      ∃ id, (ofLeftHandSides name entries).nonTerminals.id? entry.lhs = some id :=
    fun entry hentry => SymbolTable.exists_id?_internAll _ (List.mem_map_of_mem hentry)
  have hentries := run_foldlM_addEntry? hsized hnames
  have hcheck : ∀ g : Grammar, g.Sized →
      (do g.checkUnaryCycles?; return g : ExceptT GrammarError Option Grammar).run =
        some (do g.checkUnaryCycles; return g) := by
    intro g hg
    rw [ExceptT.run_bind, run_checkUnaryCycles? hg]
    cases g.checkUnaryCycles <;> rfl
  unfold ofEntries? ofEntries
  split_ifs with hempty
  · rfl
  · rw [ExceptT.run_bind, hentries]
    cases h : entries.foldlM Grammar.addEntry (ofLeftHandSides name entries) with
    | error e => rfl
    | ok g =>
      have hg : g.Sized := Except.foldlM_invariant (fun _ _ _ _ hs => hs.addEntry) hsized h
      cases start? with
      | none => exact hcheck g hg
      | some start =>
        change ExceptT.run (g.withStart? start >>= _) = some (g.withStart start >>= _)
        rw [ExceptT.run_bind, run_withStart? hg]
        cases hstart : g.withStart start with
        | error e => rfl
        | ok g' =>
          obtain ⟨id, -, rfl⟩ := g.withStart_eq_ok.mp hstart
          exact hcheck _ hg

section Text

variable (hg : g.Coherent)
include hg

theorem name?_of_lt {nt : SymbolId} (h : nt.toNat < g.rules.size) :
    g.nonTerminals.name? nt = some (g.nonTerminalText nt) :=
  name?_nonTerminalText (hg.size_rules ▸ h)

theorem symbolText?_eq {nt : SymbolId} {p : Production} (hp : p ∈ g.alternatives nt) {s : Symbol}
    (hs : s ∈ p) : g.symbolText? s = some (g.symbolText s) := by
  cases s with
  | terminal t =>
    have hname := name?_terminalText ((hg.admits hp).terminal_lt hs)
    rw [symbolText?, hname]
    rfl
  | nonTerminal child => exact name?_of_lt hg ((hg.admits hp).nonTerminal_lt hs)

theorem ruleLine?_eq {nt : SymbolId} (h : nt.toNat < g.rules.size) :
    g.ruleLine? nt = some (g.ruleLine nt) := by
  have halternatives : (g.alternatives nt).mapM g.alternativeText? =
      some ((g.alternatives nt).map g.alternativeText) := by
    apply mapM_eq_some
    intro p hp
    unfold alternativeText?
    rw [mapM_eq_some fun s hs => symbolText?_eq hg hp hs]
    rfl
  unfold ruleLine?
  rw [name?_of_lt hg h, halternatives]
  rfl

theorem Coherent.total (hsmall : g.Small) : g.Total where
  withStart name := run_withStart? ⟨hg.nonTerminals, hg.size_rules⟩ name
  startName := hg.exists_startName
  ruleText := by
    unfold ruleText?
    rw [mapM_eq_some fun nt hnt => by rw [ruleLine?_eq hg ((hg.mem_displayOrder hsmall).mp hnt)]; rfl]
    rfl

end Text

end Grammar

namespace Cursor

variable (c : Chart)

mutual

/-- The tree at which a cursor stands, unless its way or one of the names is not there. -/
def tree? : Cursor → Option ParseTree
  | ⟨e, i, children⟩ => do
    let label ← c.grammar.nonTerminals.name? e.category
    match ← (c.waysOf e)[i]? with
    | .word t => return .leaf label (← c.grammar.terminals.name? t)
    | .split _ _ => return .node label (← treeAll? children)

def treeAll? : List Cursor → Option (List ParseTree)
  | [] => some []
  | cursor :: rest => do return (← tree? cursor) :: (← treeAll? rest)

end

end Cursor

/-- The derivations from `nt`, with nested calls up to `calls` for the first one. -/
def Chart.derivations? (c : Chart) (calls : Nat) (nt : SymbolId) : Option Derivations :=
  match c.root? nt with
  | none => some { chart := c, cursor := none, started := false }
  | some e => do
    let cursor ← Cursor.atWayWithin c calls e 0
    return { chart := c, cursor := some cursor, started := false }

/-- Pulls the next tree, with nested calls up to `calls` for each first derivation that is looked
for. -/
def Derivations.next? (d : Derivations) (calls : Nat) : Option (Option ParseTree × Derivations) :=
  match d.cursor with
  | none => some (none, d)
  | some cursor => do
    let (found, cursor) ←
      if d.started then cursor.advanceWithin d.chart calls else some (true, cursor)
    if found then
      let tree ← cursor.tree? d.chart
      return (some tree, { d with cursor := some cursor, started := true })
    else return (none, { d with cursor := none })

namespace Cursor

variable {c : Chart}

/-- All that a tree of the chart is made of has a name. -/
def Named (c : Chart) : Prop :=
  ∀ e, ∀ way ∈ c.waysOf e,
    c.grammar.nonTerminals.name? e.category = some (c.grammar.nonTerminalText e.category) ∧
      ∀ t, way = .word t → c.grammar.terminals.name? t = some (c.grammar.terminalText t)

mutual

theorem tree?_eq (hnames : Named c) :
    (cursor : Cursor) → cursor.Valid c → cursor.tree? c = some (cursor.tree c)
  | ⟨e, i, children⟩, hvalid => by
    rw [Valid] at hvalid
    obtain ⟨⟨way, hway, -⟩, hchildren⟩ := hvalid
    obtain ⟨hlabel, hword⟩ := hnames e way (List.mem_of_getElem? hway)
    rw [tree?, tree, hlabel, hway]
    cases way with
    | word t =>
      have ht := hword t rfl
      simp [ht]
    | split alternative xs =>
      have hall := treeAll?_eq hnames children hchildren
      simp [hall]

theorem treeAll?_eq (hnames : Named c) :
    (cursors : List Cursor) → ValidAll c cursors → treeAll? c cursors = some (treeAll c cursors)
  | [], _ => rfl
  | cursor :: rest, hvalid => by
    rw [ValidAll] at hvalid
    rw [treeAll?, treeAll, tree?_eq hnames cursor hvalid.1, treeAll?_eq hnames rest hvalid.2]
    rfl

end

end Cursor

namespace Chart

variable {c : Chart} {rank : Edge → Nat}

/-- No lookup in a chart fails, neither while it is filled nor in any pull from it. -/
structure Total (c : Chart) : Prop where
  table : ∃ table, Table.fill? c.grammar c.tokens = some table ∧ table.Shows c.length c.cell
  derivations (nt : SymbolId) (calls : Nat) : c.height ≤ calls →
    c.derivations? calls nt = some (c.derivations nt)
  next (nt : SymbolId) (n calls : Nat) : c.height ≤ calls →
    ((c.derivations nt).after n).next? calls = some ((c.derivations nt).after n).next
  /-- Between two pulls, the cursor and all those inside it stand at ways that are there. -/
  valid (nt : SymbolId) (n : Nat) (cursor : Cursor) :
    ((c.derivations nt).after n).cursor = some cursor → cursor.Valid c

theorem Ranked.valid_after (h : c.Ranked rank) {nt : SymbolId} {n : Nat} {cursor : Cursor}
    (hcursor : ((c.derivations nt).after n).cursor = some cursor) : cursor.Valid c := by
  have hmem : cursor ∈ c.cursors ⟨0, c.length, nt⟩ := by
    cases n with
    | zero =>
      obtain ⟨e, hroot, rfl⟩ := Option.map_eq_some_iff.mp hcursor
      unfold root? at hroot
      dsimp only at hroot
      split_ifs at hroot with hways
      obtain rfl := Option.some.inj hroot
      exact List.mem_of_head? (h.head?_cursors (by simpa using hways))
    | succ n =>
      rw [h.cursor_after] at hcursor
      exact List.mem_of_getElem? hcursor
  exact (h.mem_cursors.mp hmem).2

theorem Ranked.derivations?_eq (h : c.Ranked rank) (nt : SymbolId) {calls : Nat}
    (hcalls : c.height ≤ calls) : c.derivations? calls nt = some (c.derivations nt) := by
  unfold derivations? derivations
  cases hroot : c.root? nt with
  | none => rfl
  | some e =>
    unfold root? at hroot
    dsimp only at hroot
    split_ifs at hroot with hways
    obtain rfl := Option.some.inj hroot
    have hfirst := h.firstWithin_eq hcalls (e := ⟨0, c.length, nt⟩) (by simpa using hways)
    dsimp only
    rw [hfirst]
    rfl

theorem Ranked.valid_next? (h : c.Ranked rank) {cursor next : Cursor} (hvalid : cursor.Valid c)
    (hnext : cursor.next? c = some next) : next.Valid c := by
  obtain ⟨i, hi⟩ := List.mem_iff_getElem?.mp (h.mem_cursors.mpr ⟨rfl, hvalid⟩)
  rw [(h.runs_cursors _).step_eq hi] at hnext
  exact (h.mem_cursors.mp (List.mem_of_getElem? hnext)).2

theorem Ranked.next?_eq (h : c.Ranked rank) (hnames : Cursor.Named c) {d : Derivations}
    (hchart : d.chart = c) (hvalid : ∀ cursor, d.cursor = some cursor → cursor.Valid c)
    {calls : Nat} (hcalls : c.height ≤ calls) : d.next? calls = some d.next := by
  subst hchart
  unfold Derivations.next? Derivations.next
  cases hcursor : d.cursor with
  | none => rfl
  | some cursor =>
    have hcurrent := hvalid cursor hcursor
    dsimp only
    cases d.started with
    | false =>
      have htree := Cursor.tree?_eq hnames cursor hcurrent
      simp [htree]
    | true =>
      have hadvance := Cursor.advanceWithin_eq h hcalls cursor hcurrent
      rw [if_pos rfl, if_pos rfl, hadvance, Cursor.advance_eq]
      cases hnext : cursor.next? d.chart with
      | none => rfl
      | some next =>
        have htree := Cursor.tree?_eq hnames next (h.valid_next? hcurrent hnext)
        simp [Cursor.moved, htree]

theorem named_ofTerminals {g : Grammar} (hg : g.Coherent) (tokens : List SymbolId) :
    Cursor.Named (ofTerminals g tokens) := by
  intro e way hway
  constructor
  · exact Grammar.name?_of_lt hg (lt_size_of_ways_ne_nil hg (List.ne_nil_of_mem hway))
  · rintro t rfl
    obtain ⟨-, -, halternative⟩ := (word_mem_ways hg).mp hway
    exact Grammar.name?_terminalText ((hg.admits halternative).terminal_lt List.mem_cons_self)

/-- Rule entries are read, a grammar is changed and shown, a chart is filled and its derivations are
pulled without a lookup that fails. -/
theorem total_of_ofTokens {g : Grammar} (hloaded : g.Loaded) (hsmall : g.Small)
    {words : List String} (h : ofTokens g words = .ok c) :
    (∀ name start? entries,
      (Grammar.ofEntries? name start? entries).run = some (Grammar.ofEntries name start? entries)) ∧
      g.Total ∧ c.Total := by
  have hg : g.Coherent := hloaded.wellFormed.toCoherent
  obtain ⟨tokens, hids, rfl⟩ := ofTokens_eq_ok.mp h
  obtain ⟨rank, hranked⟩ := exists_ranked hloaded.wellFormed tokens
  have htokens : ∀ t ∈ tokens, t.toNat < g.terminals.size := by
    intro t ht
    obtain ⟨word, -, hid⟩ := hids.exists_of_mem ht
    exact hg.terminals.toNat_lt hid
  refine ⟨Grammar.run_ofEntries?, hg.total hsmall, ?_, ?_, ?_, ?_⟩
  · exact Table.exists_fill? hg hsmall htokens
  · exact fun nt calls hcalls => hranked.derivations?_eq nt hcalls
  · intro nt n calls hcalls
    exact hranked.next?_eq (named_ofTerminals hg tokens) (chart_after nt n)
      (fun _ => hranked.valid_after) hcalls
  · exact fun nt n cursor => hranked.valid_after

/-- The chart of three words can be filled, and each pull from it finds its ways and names. -/
theorem total_bracketings :
    (∃ table, Table.fill? .bracketings [0, 0, 0] = some table) ∧
      ∀ n, (((ofTerminals .bracketings [0, 0, 0]).derivations 0).after n).next? 6 =
        some (((ofTerminals .bracketings [0, 0, 0]).derivations 0).after n).next := by
  have hheight : (ofTerminals .bracketings [0, 0, 0]).height = 6 := by decide +kernel
  obtain ⟨-, -, htotal⟩ :=
    total_of_ofTokens Grammar.loaded_bracketings Grammar.small_bracketings ofTokens_bracketings
  obtain ⟨table, hfill, -⟩ := htotal.table
  exact ⟨⟨table, hfill⟩, fun n => htotal.next 0 n 6 hheight.le⟩

end Chart

end PhraseStructure
